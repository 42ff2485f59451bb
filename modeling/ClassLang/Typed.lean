/-
The checked program tree: the shape of the program handed in, with a type on every node and calls
told apart into calls of built-ins and making of objects.
-/
import ClassLang.Source

namespace ClassLang
namespace Typed

inductive Expr where
  | literal (ty : Ty) (value : Literal)
  | id (ty : Ty) (name : String)
  | unary (ty : Ty) (op : UnOp) (arg : Expr)
  | binary (ty : Ty) (op : BinOp) (lhs rhs : Expr)
  | paren (ty : Ty) (arg : Expr)
  | call (ty : Ty) (name : String) (args : List Expr)
  | construct (ty : Ty) (cls : String)
  | methodCall (ty : Ty) (obj : Expr) (name : String) (args : List Expr)
  | field (ty : Ty) (obj : Expr) (name : String)
deriving Repr, BEq

def Expr.ty : Expr → Ty
  | .literal ty _ | .id ty _ | .unary ty _ _ | .binary ty _ _ _ | .paren ty _ | .call ty _ _
  | .construct ty _ | .methodCall ty _ _ _ | .field ty _ _ => ty

inductive LValue where
  | var (ty : Ty) (name : String)
  | field (ty : Ty) (obj : LValue) (name : String)
deriving Repr, BEq

def LValue.ty : LValue → Ty
  | .var ty _ | .field ty _ _ => ty

mutual

/-- The type of a statement is that of the value it may return; `none` if control can pass it. -/
inductive Stmt where
  | assign (ty : Ty) (lhs : LValue) (value : Expr)
  | expr (ty : Ty) (expr : Expr)
  | ret (ty : Ty) (value : Option Expr)
  | branch (ty : Ty) (arm : Arm)
  | pass (ty : Ty)

inductive Arm where
  | mk (ty : Ty) (condition : Option Expr) (body : List Stmt) (alternative : Option Arm)

end

deriving instance Repr, BEq for Stmt, Arm

def Stmt.ty : Stmt → Ty
  | .assign ty _ _ | .expr ty _ | .ret ty _ | .branch ty _ | .pass ty => ty

def Arm.ty : Arm → Ty
  | .mk ty _ _ _ => ty

/-- The type of a list of statements is that of the last one that returns a value. -/
def bodyTy (stmts : List Stmt) : Ty :=
  stmts.foldl (fun ty stmt => if stmt.ty = .none then ty else stmt.ty) .none

structure Method where
  name : String
  ret : Ty
  params : List Param
  definitions : List VarDef
  statements : List Stmt
  bodyTy : Ty
deriving Repr, BEq

def Method.isConstructor (m : Method) : Bool := m.name = Source.constructorName

structure Class where
  name : String
  ty : Ty
  fields : List VarDef
  methods : List Method
deriving Repr, BEq

structure Program where
  ty : Ty
  globals : List VarDef
  classes : List Class
  body : List Stmt
deriving Repr, BEq

end Typed
end ClassLang
