/-
Which values go into which slots, and which operand types are alike.

No value has type `any`, so meeting one as the type of a value is a defect and not an answer.
-/
import ClassLang.Error

namespace ClassLang
namespace Ty

/-- Whether a slot of this type takes a value of type `value`.  The absent value goes anywhere but
among numbers; everything else goes to its own type only, or to `any`. -/
def accepts (slot value : Ty) : Except Error Bool :=
  match value with
  | .none => .ok (slot != .int && slot != .bool)
  | .any => .error (.internal .anyAssigned)
  | value => .ok (slot == value || slot == .any)

/-- Refuses with `refusal` a value that the slot does not take. -/
def require (slot value : Ty) (refusal : Error) : Except Error Unit := do
  if ← slot.accepts value then return () else throw refusal

def same (a b : Ty) : Except Error Bool :=
  if a = .any ∨ b = .any then .error (.internal .anyOperand) else .ok (a = b)

/-- A reference is an object or the absent value; references can be told apart by identity. -/
def isReference : Ty → Bool
  | .none | .object _ => true
  | _ => false

end Ty
end ClassLang
