/-
Forgetting annotations: the program tree that a checked tree annotates.
-/
import ClassLang.Typed

namespace ClassLang
namespace Typed

mutual

def Expr.erase : Expr → Source.Expr
  | .literal _ value => .literal value
  | .id _ name => .id name
  | .unary _ op arg => .unary op arg.erase
  | .binary _ op lhs rhs => .binary op lhs.erase rhs.erase
  | .paren _ arg => .paren arg.erase
  | .call _ name args => .call name (Expr.eraseAll args)
  | .construct _ cls => .call cls []
  | .methodCall _ obj name args => .methodCall obj.erase name (Expr.eraseAll args)
  | .field _ obj name => .field obj.erase name
termination_by structural e => e

def Expr.eraseAll : List Expr → List Source.Expr
  | [] => []
  | e :: rest => e.erase :: Expr.eraseAll rest
termination_by structural es => es

end

def LValue.erase : LValue → Source.LValue
  | .var _ name => .var name
  | .field _ obj name => .field obj.erase name

mutual

def Stmt.erase : Stmt → Source.Stmt
  | .assign _ lhs value => .assign lhs.erase value.erase
  | .expr _ e => .expr e.erase
  | .ret _ value => .ret (value.map (·.erase))
  | .branch _ arm => .branch arm.erase
  | .pass _ => .pass
termination_by structural s => s

def Arm.erase : Arm → Source.Arm
  | .mk _ condition body alternative =>
    .mk (condition.map (·.erase)) (Stmt.eraseAll body) (Arm.eraseAlternative alternative)
termination_by structural a => a

def Arm.eraseAlternative : Option Arm → Option Source.Arm
  | none => none
  | some arm => some arm.erase
termination_by structural a => a

def Stmt.eraseAll : List Stmt → List Source.Stmt
  | [] => []
  | s :: rest => s.erase :: Stmt.eraseAll rest
termination_by structural ss => ss

end

def Method.erase (m : Method) : Source.Method :=
  { name := m.name
    params := m.params
    ret := m.ret
    definitions := m.definitions
    statements := Stmt.eraseAll m.statements }

def Class.erase (c : Class) : Source.Class :=
  { name := c.name, fields := c.fields, methods := c.methods.map (·.erase) }

def Program.erase (p : Program) : Source.Program :=
  { globals := p.globals, classes := p.classes.map (·.erase), body := Stmt.eraseAll p.body }

end Typed
end ClassLang
