/-
All expressions of a checked program, each before its parts and the parts in the order in which
they are evaluated.
-/
import ClassLang.Typed

namespace ClassLang
namespace Typed

mutual

def Expr.all : Expr → List Expr
  | .literal ty value => [.literal ty value]
  | .id ty name => [.id ty name]
  | .unary ty op arg => .unary ty op arg :: arg.all
  | .binary ty op lhs rhs => .binary ty op lhs rhs :: (lhs.all ++ rhs.all)
  | .paren ty arg => .paren ty arg :: arg.all
  | .call ty name args => .call ty name args :: Expr.allOf args
  | .construct ty cls => [.construct ty cls]
  | .methodCall ty obj name args => .methodCall ty obj name args :: (obj.all ++ Expr.allOf args)
  | .field ty obj name => .field ty obj name :: obj.all
termination_by structural e => e

def Expr.allOf : List Expr → List Expr
  | [] => []
  | e :: rest => e.all ++ Expr.allOf rest
termination_by structural es => es

end

mutual

/-- The target of an assignment is no expression. -/
def Stmt.exprs : Stmt → List Expr
  | .assign _ _ value => value.all
  | .expr _ e => e.all
  | .ret _ value => Expr.allOf value.toList
  | .branch _ arm => arm.exprs
  | .pass _ => []
termination_by structural s => s

def Arm.exprs : Arm → List Expr
  | .mk _ condition body alternative =>
    Expr.allOf condition.toList ++ (Stmt.exprsOf body ++ Arm.alternativeExprs alternative)
termination_by structural a => a

def Arm.alternativeExprs : Option Arm → List Expr
  | none => []
  | some arm => arm.exprs
termination_by structural a => a

def Stmt.exprsOf : List Stmt → List Expr
  | [] => []
  | s :: rest => s.exprs ++ Stmt.exprsOf rest
termination_by structural ss => ss

end

/-- Those of the outermost statements first, then those of each method. -/
def Program.expressions (p : Program) : List Expr :=
  Stmt.exprsOf p.body ++
    p.classes.flatMap fun c => c.methods.flatMap fun m => Stmt.exprsOf m.statements

end Typed
end ClassLang
