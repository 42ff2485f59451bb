/-
Types of expressions and of assignment targets.
-/
import ClassLang.Typed
import ClassLang.Typing.Member

namespace ClassLang
namespace Source

/-- A call of a name that is no built-in makes an object. -/
def checkConstruct (scope : Scope) (cls : String) (args : Nat) : Except Error Typed.Expr :=
  if !scope.classes.contains cls then .error (.undefinedFunction cls)
  else if args ≠ 0 then .error (.constructorArgs cls args)
  else .ok (.construct (.object cls) cls)

mutual

def Expr.check (scope : Scope) : Expr → Except Error Typed.Expr
  | .literal value => .ok (.literal value.ty value)
  | .id name => do
    let binding ← scope.var name
    return .id binding.ty name
  | .unary op arg => do
    let arg ← arg.check scope
    if arg.ty = op.operandTy then return .unary op.operandTy op arg
    else throw (.invalidUnaryOperand op.text arg.ty)
  | .binary op lhs rhs => do
    let lhs ← lhs.check scope
    let rhs ← rhs.check scope
    let ty ← op.check lhs.ty rhs.ty
    return .binary ty op lhs rhs
  | .paren arg => do
    let arg ← arg.check scope
    return .paren arg.ty arg
  | .call name args =>
    match scope.functions.get? name with
    | none => checkConstruct scope name args.length
    | some signature => do
      signature.checkCount name args.length
      let args ← Expr.checkArgs scope name 0 signature.params args
      return .call signature.ret name args
  | .methodCall obj name args => do
    let obj ← obj.check scope
    let args ← Expr.checkAll scope args
    let (cls, signature) ← scope.methodSignature obj.ty name
    signature.checkCount s!"{cls}.{name}" args.length
    checkArgTys s!"{cls}.{name}" 0 signature.params (args.map (·.ty))
    return .methodCall signature.ret obj name args
  | .field obj name => do
    let obj ← obj.check scope
    let ty ← scope.fieldTy obj.ty name
    return .field ty obj name
termination_by structural e => e

def Expr.checkAll (scope : Scope) : List Expr → Except Error (List Typed.Expr)
  | [] => .ok []
  | e :: rest => do
    let e ← e.check scope
    let rest ← Expr.checkAll scope rest
    return e :: rest
termination_by structural es => es

/-- The arguments of a built-in: each must go into its parameter before the next is looked at. -/
def Expr.checkArgs (scope : Scope) (callee : String) (index : Nat) (params : List Ty) :
    List Expr → Except Error (List Typed.Expr)
  | [] => .ok []
  | e :: rest =>
    match params with
    | [] => .ok []
    | param :: params => do
      let e ← e.check scope
      param.require e.ty (.argumentMismatch callee index param e.ty)
      let rest ← Expr.checkArgs scope callee (index + 1) params rest
      return e :: rest
termination_by structural es => es

end

theorem Expr.check_literal {scope : Scope} {value : Literal} {te : Typed.Expr} :
    (Expr.literal value).check scope = .ok te ↔ .literal value.ty value = te := by
  rw [Expr.check, Except.ok.injEq]

/-- A target that is only read through: any visible variable will do. -/
def LValue.checkReceiver (scope : Scope) : LValue → Except Error Typed.LValue
  | .var name => do
    let binding ← scope.var name
    return .var binding.ty name
  | .field obj name => do
    let obj ← obj.checkReceiver scope
    let ty ← scope.fieldTy obj.ty name
    return .field ty obj name

/-- A target that is written: a variable must be bound by the innermost scope. -/
def LValue.check (scope : Scope) : LValue → Except Error Typed.LValue
  | .var name => do
    let binding ← scope.var name
    if binding.assignable then return .var binding.ty name else throw (.notAssignableHere name)
  | target => target.checkReceiver scope

end Source
end ClassLang
