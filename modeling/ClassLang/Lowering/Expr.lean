/-
Code for expressions and assignment targets.

Every expression leaves one word on the stack.  Objects are addresses, and the absent object is 0.
-/
import ClassLang.Code
import ClassLang.Host
import ClassLang.Scope
import ClassLang.Typed.Outline

namespace ClassLang

def methodSymbol (cls method : String) : String := cls ++ "$" ++ method

def constructorSymbol (cls : String) : String := cls ++ "$$constructor"

/-- Calls the trap if the object on top of the stack is absent, and leaves the object there. -/
def guardAbsent : Code :=
  [.localSet scratch, .localGet scratch, .const 0, .localGet scratch, .eq,
   .branch [.call Host.trapName 0 false] none]

def UnOp.code : UnOp → Code
  | .not => [.const 1, .xor]
  | .neg => [.const (-1), .mul]
  | .plus => []

def BinOp.instr : BinOp → Instr
  | .add => .add
  | .sub => .sub
  | .mul => .mul
  | .floorDiv => .divS
  | .mod => .remS
  | .eq | .is => .eq
  | .ne => .ne
  | .lt => .ltS
  | .le => .leS
  | .gt => .gtS
  | .ge => .geS

namespace Scope

def readVar (scope : Scope) (name : String) : Except Error Instr := do
  if ← scope.isGlobal name then return .globalGet name else return .localGet name

def writeVar (scope : Scope) (name : String) : Except Error Instr := do
  if ← scope.isGlobal name then return .globalSet name else return .localSet name

/-- The code that turns the address of an object of type `obj` into that of one of its fields. -/
def fieldAddress (scope : Scope) (obj : Ty) (field : String) : Except Error Code := do
  let .object cls := obj | throw (.internal (.fieldOfNonObject field obj))
  let some layout := (scope.classes.get? cls).bind (·.layout)
    | throw (.internal (.missingLayout cls))
  let some offset := layout.offset? field | throw (.internal (.missingField field cls))
  return guardAbsent ++ [.const offset.toInt32, .add]

end Scope

/-- The call of a built-in on arguments of the given types.  Which function prints depends on the
type of what is printed. -/
def callBuiltin (name : String) (args : List Ty) : Except Error Instr := do
  let target ←
    if name = Host.printName then
      match args with
      | [arg] => pure (Host.printerOf arg)
      | args => throw (.internal (.printArity args.length))
    else pure name
  match Host.import? target with
  | some i => return .call i.name i.params i.returns
  | none => throw (.internal (.missingImport target))

namespace Typed

mutual

def Expr.lower (scope : Scope) (e : Expr) : Except Error Code :=
  if e.ty = .any then .error (.internal (.anyExpression e.outline)) else
  match e with
  | .literal _ value => .ok [.const value.word]
  | .id _ name => do
    let read ← scope.readVar name
    return [read]
  | .unary _ op arg => do
    let arg ← arg.lower scope
    return arg ++ op.code
  | .binary _ op lhs rhs => do
    let lhs ← lhs.lower scope
    let rhs ← rhs.lower scope
    return lhs ++ rhs ++ [op.instr]
  | .paren _ arg => arg.lower scope
  | .call _ name args => do
    let code ← Expr.lowerAll scope args
    let call ← callBuiltin name (args.map (·.ty))
    return code ++ [call]
  | .construct _ cls => .ok [.call (constructorSymbol cls) 0 true]
  | .methodCall _ obj name args => do
    let .object cls := obj.ty | throw (.internal (.methodOfNonObject name obj.ty))
    let obj ← obj.lower scope
    let code ← Expr.lowerAll scope args
    return obj ++ guardAbsent ++ code ++ [.call (methodSymbol cls name) (args.length + 1) true]
  | .field _ obj name => do
    let code ← obj.lower scope
    let address ← scope.fieldAddress obj.ty name
    return code ++ address ++ [.load]
termination_by structural e

def Expr.lowerAll (scope : Scope) : List Expr → Except Error Code
  | [] => .ok []
  | e :: rest => do
    let code ← e.lower scope
    let rest ← Expr.lowerAll scope rest
    return code ++ rest
termination_by structural es => es

end

/-- The word that a target holds. -/
def LValue.lowerRead (scope : Scope) : LValue → Except Error Code
  | .var _ name => do
    let read ← scope.readVar name
    return [read]
  | .field _ obj name => do
    let code ← obj.lowerRead scope
    let address ← scope.fieldAddress obj.ty name
    return code ++ address ++ [.load]

/-- Stores the word that `value` leaves.  The address of a field comes before the value. -/
def LValue.lowerWrite (scope : Scope) (value : Expr) : LValue → Except Error Code
  | .var _ name => do
    let value ← value.lower scope
    let write ← scope.writeVar name
    return value ++ [write]
  | .field _ obj name => do
    let code ← obj.lowerRead scope
    let address ← scope.fieldAddress obj.ty name
    let value ← value.lower scope
    return code ++ address ++ value ++ [.store]

end Typed

end ClassLang
