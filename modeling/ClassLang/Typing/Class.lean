/-
Classes: their signatures, collected before any body is looked at so that classes may name each
other in any order, and their full check.
-/
import ClassLang.Typing.Stmt

namespace ClassLang

/-- A definition's initial value must go into a slot of its declared type. -/
def VarDef.check (scope : Scope) (v : VarDef) : Except Error VarDef := do
  scope.checkDeclared v.ty
  v.ty.require v.value.ty (.typeMismatch v.ty v.value.ty)
  return v

namespace Source

/-- The first parameter of every method is the object itself. -/
def Method.checkSelf (cls : String) (m : Method) (first : Param) : Except Error Unit :=
  if first.name = "self" ∧ first.ty = .object cls then .ok () else .error (.invalidSelf cls m.name)

/-- What callers see of a method.  A constructor hands back the object that it was given, whatever
it declares. -/
def Method.signature (cls : String) (m : Method) : Except Error Signature :=
  if m.name = constructorName then
    match m.params with
    | [first] => do
      if m.ret ≠ .none then throw (.constructorReturnType cls m.ret)
      m.checkSelf cls first
      return { params := [], ret := .object cls }
    | params => .error (.constructorArity cls params.length)
  else
    match m.params with
    | first :: rest => do
      m.checkSelf cls first
      return { params := rest.map (·.ty), ret := m.ret }
    | [] => .error (.missingSelf cls m.name)

/-- Fields of one class have different names, and methods have names different from both. -/
def Class.signature (c : Class) : Except Error ClassInfo := do
  let twice (what name : String) : Error := .duplicateDefinition what name s!"class {c.name}"
  let fields ← c.fields.foldlM (fun (fields : Table Ty) f =>
    if fields.contains f.name then throw (twice "field" f.name)
    else return fields.insert f.name f.ty) .empty
  let methods ← c.methods.foldlM (fun (methods : Table Signature) m => do
    if methods.contains m.name || fields.contains m.name then throw (twice "method" m.name)
    return methods.insert m.name (← m.signature c.name)) .empty
  return { fields, methods, layout := none }

/-- What is wrong with a method whose body has type `body` and not the declared one. -/
def Method.returnError (m : Method) (body : Ty) : Error :=
  if m.ret = .none then .unexpectedReturnValue m.name
  else if body = .none then .missingReturn m.name
  else .methodReturnMismatch m.name m.ret body

/-- Checks a method in the scope of its class. -/
def Method.check (scope : Scope) (m : Method) : Except Error Typed.Method := do
  m.params.forM fun p => scope.checkDeclared p.ty
  scope.checkDeclared m.ret
  let definitions ← m.definitions.mapM (·.check scope)
  let inner ← scope.enterMethod m.ret m.params (definitions.map fun v => ⟨v.name, v.ty⟩)
  if m.name = constructorName && Stmt.anyReturnsValue m.statements then
    throw (.constructorReturnsValue (scope.owner.getD ""))
  let statements ← Stmt.checkAll inner m.statements
  let bodyTy := Typed.bodyTy statements
  m.ret.require bodyTy (m.returnError bodyTy)
  return { name := m.name, ret := m.ret, params := m.params, definitions, statements, bodyTy }

def Class.check (scope : Scope) (c : Class) : Except Error Typed.Class := do
  let inner := scope.enterClass c.name
  let fields ← c.fields.mapM (·.check inner)
  let methods ← c.methods.mapM (·.check inner)
  return { name := c.name, ty := .object c.name, fields, methods }

end Source
end ClassLang
