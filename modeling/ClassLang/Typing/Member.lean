/-
The types of the members of objects, and of calls.
-/
import ClassLang.Scope
import ClassLang.Source
import ClassLang.Ty.Assignable

namespace ClassLang
namespace Scope

def fieldTy (scope : Scope) (obj : Ty) (field : String) : Except Error Ty := do
  let .object cls := obj | throw (.notAnObject s!"field {field}" obj)
  let info ← scope.classInfo cls
  match info.fields.get? field with
  | some ty => return ty
  | none => throw (.unknownField cls field)

/-- How the class of a receiver declares a method, and the name of that class.  The constructor runs
when an object is made and at no other time. -/
def methodSignature (scope : Scope) (obj : Ty) (method : String) :
    Except Error (String × Signature) := do
  if method = Source.constructorName then throw (.explicitConstructorCall obj.text)
  let .object cls := obj | throw (.notAnObject s!"method {method}" obj)
  let info ← scope.classInfo cls
  match info.methods.get? method with
  | some signature => return (cls, signature)
  | none => throw (.unknownMethod cls method)

/-- A declaration may use every type but `any`, and only classes that are declared. -/
def checkDeclared (scope : Scope) : Ty → Except Error Unit
  | .any => .error (.invalidDeclaredType .any)
  | .object cls => do let _ ← scope.classInfo cls
  | _ => .ok ()

end Scope

namespace Signature

def checkCount (signature : Signature) (callee : String) (got : Nat) : Except Error Unit :=
  if got = signature.params.length then .ok ()
  else .error (.argCountMismatch callee signature.params.length got)

end Signature

/-- Whether each argument goes into its parameter; `index` counts the arguments before these. -/
def checkArgTys (callee : String) (index : Nat) : (params args : List Ty) → Except Error Unit
  | param :: params, arg :: args => do
    param.require arg (.argumentMismatch callee index param arg)
    checkArgTys callee (index + 1) params args
  | _, _ => .ok ()

end ClassLang
