/-
Why a program is refused, as causes.  Wording is in `Error.message` alone.
-/
import ClassLang.Ty

namespace ClassLang

/-- A broken assumption of the compiler itself.  No program that passes the checker shows one. -/
inductive Defect where
  | anyAssigned
  | anyOperand
  | unboundVariable (name : String)
  | missingClass (cls : String)
  | missingLayout (cls : String)
  | missingField (field cls : String)
  | fieldOfNonObject (field : String) (ty : Ty)
  | methodOfNonObject (method : String) (ty : Ty)
  | returnOutsideMethod
  | elseWithoutCondition
  /-- An expression of type `any`, by its outline. -/
  | anyExpression (outline : String)
  | printArity (args : Nat)
  | missingImport (name : String)
  /-- A defect known by its description only. -/
  | described (text : String)
deriving Repr, DecidableEq

namespace Defect

def text : Defect → String
  | .anyAssigned => "value of type any reached an assignability check"
  | .anyOperand => "any type detected on an expression"
  | .unboundVariable name => s!"unbound variable {name} reached code generation"
  | .missingClass cls => s!"class {cls} missing from the environment"
  | .missingLayout cls => s!"layout of class {cls} not resolved"
  | .missingField field cls => s!"field {field} missing from the layout of {cls}"
  | .fieldOfNonObject field ty => s!"field {field} read from non-object {ty.text}"
  | .methodOfNonObject method ty => s!"method call {method} on non-object {ty.text}"
  | .returnOutsideMethod => "return outside a method reached code generation"
  | .elseWithoutCondition => "else branch without a condition reached code generation"
  | .anyExpression outline => s!"expression typed any: {outline}"
  | .printArity args => s!"print called with {args} arguments"
  | .missingImport name => s!"no host import for built-in {name}"
  | .described text => text

end Defect

inductive Error where
  | undefinedVariable (name : String)
  | notAssignableHere (name : String)
  | undefinedFunction (name : String)
  | undefinedClass (name : String)
  | unknownMethod (cls method : String)
  | unknownField (cls field : String)
  | invalidDeclaredType (ty : Ty)
  | duplicateDefinition (what name : String) (scope : Option String)
  | typeMismatch (expected got : Ty)
  /-- The first argument of a call has index 0. -/
  | argumentMismatch (callee : String) (index : Nat) (expected got : Ty)
  | argCountMismatch (callee : String) (expected got : Nat)
  | invalidUnaryOperand (op : String) (ty : Ty)
  | invalidBinaryOperands (op : String) (lhs rhs : Ty)
  | notAnObject (member : String) (ty : Ty)
  | nonBoolCondition (got : Ty)
  | malformedIf
  | returnOutsideMethod
  | returnTypeMismatch (expected got : Ty)
  | unexpectedReturnValue (method : String)
  | missingReturn (method : String)
  | methodReturnMismatch (method : String) (expected got : Ty)
  | invalidSelf (cls method : String)
  | missingSelf (cls method : String)
  | constructorArity (cls : String) (got : Nat)
  | constructorReturnType (cls : String) (got : Ty)
  | constructorReturnsValue (cls : String)
  | explicitConstructorCall (cls : String)
  | constructorArgs (cls : String) (got : Nat)
  | internal (defect : Defect)
deriving Repr, DecidableEq

namespace Error

/-- Whose mistake an error is: the program's or the compiler's. -/
inductive Family where
  | type
  | internal
deriving Repr, DecidableEq

def family : Error → Family
  | .internal _ => .internal
  | _ => .type

/-- What a type error says after its heading. -/
def complaint : Error → String
  | .undefinedVariable name => s!"Variable {name} not defined"
  | .notAssignableHere name => s!"Variable {name} is not defined in the scope"
  | .undefinedFunction name => s!"Function {name} not defined"
  | .undefinedClass name => s!"class {name} does not exist"
  | .unknownMethod cls method => s!"{cls} does not have method {method}"
  | .unknownField cls field => s!"Class {cls} does not have a field {field}"
  | .invalidDeclaredType ty => s!"Type {ty.text} cannot be used in a declaration"
  | .duplicateDefinition what name none => s!"Duplicate definition of {what} {name}"
  | .duplicateDefinition what name (some scope) =>
    s!"Duplicate definition of {what} {name} in {scope}"
  | .typeMismatch expected got => s!"Cannot assign type {got.text} to {expected.text}"
  | .argumentMismatch callee index expected got =>
    s!"Expected argument of type {expected.text} for argument {index} of {callee}, got {got.text}"
  | .argCountMismatch callee expected got => s!"{callee} expected {expected} arguments, got {got}"
  | .invalidUnaryOperand op ty => s!"\"{op}\" operation is not defined on type {ty.text}"
  | .invalidBinaryOperands op lhs rhs => s!"Cannot apply {op} on {lhs.text} and {rhs.text}"
  | .notAnObject member ty => s!"Cannot access {member} of non-object type {ty.text}"
  | .nonBoolCondition got =>
    s!"If/Elif cannot be evaluated with an expression of type {got.text}"
  | .malformedIf => "Invalid if statement: else branch without a condition"
  | .returnOutsideMethod => "Returns cannot occur at the outermost level"
  | .returnTypeMismatch expected got =>
    s!"Expected a return of type {expected.text}, but got {got.text}"
  | .unexpectedReturnValue method => s!"Method {method} does not have a return type"
  | .missingReturn method =>
    s!"Method {method} should have a return at possible reachable code segments in the function"
  | .methodReturnMismatch method expected got =>
    s!"Method {method} returns {expected.text}, but got {got.text}"
  | .invalidSelf cls method =>
    s!"First argument of method {method} in class {cls} must be self and must have type {cls}"
  | .missingSelf cls method =>
    s!"Method {method} of class {cls} expected at least 1 parameter (self), got 0 parameters"
  | .constructorArity cls got => s!"Constructor of class {cls} has {got} parameters, expected 1"
  | .constructorReturnType cls got =>
    s!"Constructor of class {cls} returns {got.text}, expected None"
  | .constructorReturnsValue cls =>
    s!"Constructor of class {cls} is not expected to return a value"
  | .explicitConstructorCall cls => s!"Cannot explicitly call constructor of class {cls}"
  | .constructorArgs _ got => s!"Constructor expected no arguments, got {got}"
  | .internal defect => defect.text

def message (error : Error) : String :=
  match error.family with
  | .type => s!"TYPE ERROR: {error.complaint}"
  | .internal => s!"Compiler error: {error.complaint}"

end Error

end ClassLang
