/-
The types of the language: two kinds of number-like value, the absent value, and the objects of each
declared class.
-/

namespace ClassLang

inductive Ty where
  | int
  | bool
  | none
  /-- The parameter type of a built-in that takes every value.  No value has this type. -/
  | any
  | object (cls : String)
deriving Repr, DecidableEq

namespace Ty

def className? : Ty → Option String
  | .object cls => some cls
  | _ => Option.none

/-- How a message spells the type.  An object type is spelt by its class alone. -/
def text : Ty → String
  | .int => "int"
  | .bool => "bool"
  | .none => "none"
  | .any => "any"
  | .object cls => cls

end Ty

/-- What a call needs to know of its callee.  The receiver of a method is not among `params`. -/
structure Signature where
  params : List Ty
  ret : Ty
deriving Repr, DecidableEq

end ClassLang
