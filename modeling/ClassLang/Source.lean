/-
The program tree as it is handed in: names are unresolved and no node has a type.
-/
import ClassLang.Literal
import ClassLang.Operator

namespace ClassLang
namespace Source

inductive Expr where
  | literal (value : Literal)
  | id (name : String)
  | unary (op : UnOp) (arg : Expr)
  | binary (op : BinOp) (lhs rhs : Expr)
  | paren (arg : Expr)
  /-- A call of a built-in, or of a class to make an object. -/
  | call (name : String) (args : List Expr)
  | methodCall (obj : Expr) (name : String) (args : List Expr)
  | field (obj : Expr) (name : String)
deriving Repr, BEq

inductive LValue where
  | var (name : String)
  | field (obj : LValue) (name : String)
deriving Repr, BEq

mutual

inductive Stmt where
  | assign (lhs : LValue) (value : Expr)
  | expr (expr : Expr)
  | ret (value : Option Expr)
  | branch (arm : Arm)
  | pass

/-- One arm of an `if` chain.  A last `else` has no condition; an `elif` is an alternative with a
condition of its own. -/
inductive Arm where
  | mk (condition : Option Expr) (body : List Stmt) (alternative : Option Arm)

end

deriving instance Repr, BEq for Stmt, Arm

structure Method where
  name : String
  params : List Param
  ret : Ty
  definitions : List VarDef
  statements : List Stmt
deriving Repr, BEq

structure Class where
  name : String
  fields : List VarDef
  methods : List Method
deriving Repr, BEq

structure Program where
  globals : List VarDef
  classes : List Class
  body : List Stmt
deriving Repr, BEq

/-- The method that runs when an object is made. -/
def constructorName : String := "__init__"

end Source
end ClassLang
