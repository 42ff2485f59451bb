/-
Short names for the nodes that programs are mostly made of.
-/
import ClassLang.Source

namespace ClassLang
namespace Source

namespace Expr

def int (n : Int32) : Expr := .literal (.int n)

def bool (b : Bool) : Expr := .literal (.bool b)

/-- The absent value. -/
def absent : Expr := .literal .none

end Expr

/-- A last `else`. -/
def Arm.otherwise (body : List Stmt) : Arm := .mk none body none

def Arm.elif (condition : Expr) (body : List Stmt) (alternative : Option Arm) : Arm :=
  .mk (some condition) body alternative

namespace Stmt

/-- Returns a value. -/
def give (value : Expr) : Stmt := .ret (some value)

def ifThen (condition : Expr) (body : List Stmt) : Stmt :=
  .branch (.mk (some condition) body none)

def ifElse (condition : Expr) (body : List Stmt) (alternative : Arm) : Stmt :=
  .branch (.mk (some condition) body (some alternative))

end Stmt

end Source
end ClassLang
