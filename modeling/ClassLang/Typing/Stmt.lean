/-
Types of statements.  They show which lists of statements always return.
-/
import ClassLang.Typing.Expr

namespace ClassLang

/-- The type of an arm.  A chain that may be left without entering an arm returns nothing, and so
does one with an arm that returns nothing. -/
def Typed.armTy? (hasCondition : Bool) (alternative : Option Ty) (body : Ty) : Option Ty :=
  match hasCondition, alternative with
  | false, none => some body
  | true, none => some .none
  | true, some other => some (if body = .none ∨ other = .none then .none else body)
  | false, some _ => none

namespace Source

/-- A condition, where there is one, must be a `bool`. -/
def checkCondition (scope : Scope) : Option Expr → Except Error (Option Typed.Expr)
  | none => .ok none
  | some e => do
    let e ← e.check scope
    if e.ty = .bool then return some e else throw (.nonBoolCondition e.ty)

def checkReturn (scope : Scope) (value : Option Expr) : Except Error Typed.Stmt := do
  if !scope.inMethod then throw .returnOutsideMethod
  match value with
  | none => return .ret .none none
  | some e =>
    let e ← e.check scope
    scope.returns.require e.ty (.returnTypeMismatch scope.returns e.ty)
    return .ret e.ty (some e)

mutual

def Stmt.check (scope : Scope) : Stmt → Except Error Typed.Stmt
  | .assign lhs value => do
    let lhs ← lhs.check scope
    let value ← value.check scope
    lhs.ty.require value.ty (.typeMismatch lhs.ty value.ty)
    return .assign .none lhs value
  | .expr e => do
    let e ← e.check scope
    return .expr .none e
  | .ret value => checkReturn scope value
  | .branch arm => do
    let arm ← arm.check scope
    return .branch arm.ty arm
  | .pass => .ok (.pass .none)
termination_by structural s => s

/-- The condition comes first, then the alternative, then the body: this is the order in which
violations are found. -/
def Arm.check (scope : Scope) : Arm → Except Error Typed.Arm
  | .mk condition body alternative => do
    let condition ← checkCondition scope condition
    let alternative ← Arm.checkAlternative scope alternative
    let body ← Stmt.checkAll scope body
    match Typed.armTy? condition.isSome (alternative.map (·.ty)) (Typed.bodyTy body) with
    | some ty => return .mk ty condition body alternative
    | none => throw .malformedIf
termination_by structural a => a

def Arm.checkAlternative (scope : Scope) : Option Arm → Except Error (Option Typed.Arm)
  | none => .ok none
  | some arm => do
    let arm ← arm.check scope
    return some arm
termination_by structural a => a

def Stmt.checkAll (scope : Scope) : List Stmt → Except Error (List Typed.Stmt)
  | [] => .ok []
  | s :: rest => do
    let s ← s.check scope
    let rest ← Stmt.checkAll scope rest
    return s :: rest
termination_by structural ss => ss

end

mutual

/-- Whether a statement returns, somewhere within it, something other than the literal `None`. -/
def Stmt.returnsValue : Stmt → Bool
  | .ret none => false
  | .ret (some (.literal .none)) => false
  | .ret (some _) => true
  | .branch arm => arm.returnsValue
  | _ => false
termination_by structural s => s

def Arm.returnsValue : Arm → Bool
  | .mk _ body alternative => Stmt.anyReturnsValue body || Arm.alternativeReturnsValue alternative
termination_by structural a => a

def Arm.alternativeReturnsValue : Option Arm → Bool
  | none => false
  | some arm => arm.returnsValue
termination_by structural a => a

def Stmt.anyReturnsValue : List Stmt → Bool
  | [] => false
  | s :: rest => s.returnsValue || Stmt.anyReturnsValue rest
termination_by structural ss => ss

end

end Source
end ClassLang
