/-
Addresses as words, and where a layout puts the fields of an object.
-/
import ClassLang.Lowering.Program
import Mathlib.Algebra.Group.Nat.Defs
import Mathlib.Tactic.Common

namespace ClassLang

/-- The word that stands for an address. -/
def addressWord (a : Nat) : Int32 := (UInt32.ofNat a).toInt32

theorem addressWord_add (a b : Nat) : addressWord a + addressWord b = addressWord (a + b) := by
  rw [addressWord, addressWord, addressWord, UInt32.ofNat_add, UInt32.toInt32_add]

theorem toNat_addressWord {a : Nat} (h : a < 2 ^ 32) : (addressWord a).toUInt32.toNat = a := by
  rw [addressWord, UInt32.toUInt32_toInt32]
  exact UInt32.toNat_ofNat_of_lt' h

theorem addressWord_inj {a b : Nat} (ha : a < 2 ^ 32) (hb : b < 2 ^ 32)
    (h : addressWord a = addressWord b) : a = b := by
  rw [← toNat_addressWord ha, h, toNat_addressWord hb]

/-- Addresses that are not a whole memory apart have words of their own. -/
theorem addressWord_eq_iff {a b : Nat} (ha : a < b + 2 ^ 32) (hb : b < a + 2 ^ 32) :
    addressWord a = addressWord b ↔ a = b := by
  have value (n : Nat) : (addressWord n).toUInt32.toNat = n % 2 ^ 32 := by
    rw [addressWord, UInt32.toUInt32_toInt32]
    exact UInt32.toNat_ofNat'
  refine ⟨fun same => ?_, fun same => by rw [same]⟩
  have rests : a % 2 ^ 32 = b % 2 ^ 32 := by rw [← value a, ← value b, same]
  omega

theorem addressWord_ne_zero {a : Nat} (h : a < 2 ^ 32) (pos : 0 < a) : addressWord a ≠ 0 := by
  intro eq
  have zero : addressWord a = addressWord 0 := eq
  have same := addressWord_inj h (by omega) zero
  omega

namespace Layout

theorem offset?_eq_some {layout : Layout} {field : String} {offset : UInt32}
    (h : layout.offset? field = some offset) :
    ∃ i : Nat, layout.fields[i]? = some field ∧ offset.toInt32 = addressWord (4 * i) := by
  rw [offset?, Option.map_eq_some_iff] at h
  obtain ⟨i, found, rfl⟩ := h
  refine ⟨i, ?_, ?_⟩
  · obtain ⟨lt, eq, -⟩ := List.findIdx?_eq_some_iff_getElem.1 found
    rw [List.getElem?_eq_getElem lt]
    exact congrArg some (beq_iff_eq.1 eq)
  · rw [addressWord, UInt32.ofNat_mul]
    rfl

theorem size_toInt32 (layout : Layout) :
    layout.size.toInt32 = addressWord (4 * layout.fields.length) := by
  rw [addressWord, UInt32.ofNat_mul]
  rfl

end Layout

end ClassLang
