/-
Code for statements.  A statement leaves the stack as it found it, unless it returns.
-/
import ClassLang.Lowering.Expr

namespace ClassLang

/-- What a return without a value hands back: zero, or in a constructor the new object. -/
inductive BareReturn where
  | zero
  | self
deriving Repr, DecidableEq

def BareReturn.code : BareReturn → Code
  | .zero => [.const 0, .ret]
  | .self => [.localGet "self", .ret]

namespace Typed

/-- In a constructor `return None` is a return without a value. -/
def lowerReturn (scope : Scope) (bare : BareReturn) (value : Option Expr) : Except Error Code := do
  if !scope.inMethod then throw (.internal .returnOutsideMethod)
  match value with
  | none => return bare.code
  | some (.literal ty .none) =>
    if bare = .self then return bare.code
    let code ← Expr.lower scope (.literal ty .none)
    return code ++ [.ret]
  | some e =>
    let code ← e.lower scope
    return code ++ [.ret]

mutual

def Stmt.lower (scope : Scope) (bare : BareReturn) : Stmt → Except Error Code
  | .assign _ lhs value => lhs.lowerWrite scope value
  | .expr _ e => do
    let code ← e.lower scope
    return code ++ [.localSet scratch]
  | .ret _ value => lowerReturn scope bare value
  | .branch _ arm => arm.lower scope bare
  | .pass _ => .ok [.nop]
termination_by structural s => s

/-- The condition is lowered last, though its code comes first. -/
def Arm.lower (scope : Scope) (bare : BareReturn) : Arm → Except Error Code
  | .mk _ condition body alternative => do
    let yes ← Stmt.lowerAll scope bare body
    match condition with
    | none =>
      if alternative.isSome then throw (.internal .elseWithoutCondition)
      return yes
    | some e =>
      let no ← Arm.lowerAlternative scope bare alternative
      let code ← e.lower scope
      return code ++ [.branch yes no]
termination_by structural a => a

def Arm.lowerAlternative (scope : Scope) (bare : BareReturn) :
    Option Arm → Except Error (Option Code)
  | none => .ok none
  | some arm => do
    let code ← arm.lower scope bare
    return some code
termination_by structural a => a

def Stmt.lowerAll (scope : Scope) (bare : BareReturn) : List Stmt → Except Error Code
  | [] => .ok []
  | s :: rest => do
    let code ← s.lower scope bare
    let rest ← Stmt.lowerAll scope bare rest
    return code ++ rest
termination_by structural ss => ss

end

end Typed

end ClassLang
