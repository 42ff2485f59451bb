/-
Linear memory: bytes, and words of four of them with the lowest first.
-/
import Mathlib.Algebra.Group.Nat.Defs
import Mathlib.Tactic.Common

namespace ClassLang

structure Memory where
  /-- How many bytes there are.  What `byte` says of others does not count. -/
  size : Nat
  byte : Nat → UInt8

namespace Memory

/-- A page of zeros. -/
def blank : Memory := ⟨2 ^ 16, fun _ => 0⟩

def word (mem : Memory) (a : Nat) : Int32 :=
  (UInt32.ofNat ((mem.byte a).toNat + 2 ^ 8 * (mem.byte (a + 1)).toNat +
    2 ^ 16 * (mem.byte (a + 2)).toNat + 2 ^ 24 * (mem.byte (a + 3)).toNat)).toInt32

def putWord (mem : Memory) (a : Nat) (w : Int32) : Memory :=
  { mem with
    byte := fun i =>
      if a ≤ i ∧ i < a + 4 then .ofNat (w.toUInt32.toNat / 2 ^ (8 * (i - a))) else mem.byte i }

@[simp] theorem size_putWord (mem : Memory) (a : Nat) (w : Int32) :
    (mem.putWord a w).size = mem.size := rfl

theorem byte_putWord_of_outside {mem : Memory} {a i : Nat} {w : Int32}
    (outside : i < a ∨ a + 4 ≤ i) : (mem.putWord a w).byte i = mem.byte i := by
  rw [putWord]
  have notIn : ¬(a ≤ i ∧ i < a + 4) := by omega
  exact if_neg notIn

theorem byte_putWord_toNat (mem : Memory) (a : Nat) (w : Int32) {k : Nat} (h : k < 4) :
    ((mem.putWord a w).byte (a + k)).toNat = w.toUInt32.toNat / 2 ^ (8 * k) % 2 ^ 8 := by
  have within : a ≤ a + k ∧ a + k < a + 4 := by omega
  have offset : a + k - a = k := by omega
  simp only [putWord, within, and_self, if_true, offset, UInt8.toNat_ofNat']

/-- A word that has been put somewhere is found there. -/
theorem word_putWord (mem : Memory) (a : Nat) (w : Int32) : (mem.putWord a w).word a = w := by
  have first := byte_putWord_toNat mem a w (k := 0) (by omega)
  have second := byte_putWord_toNat mem a w (k := 1) (by omega)
  have third := byte_putWord_toNat mem a w (k := 2) (by omega)
  have fourth := byte_putWord_toNat mem a w (k := 3) (by omega)
  rw [Nat.add_zero] at first
  rw [word, first, second, third, fourth]
  have bound : w.toUInt32.toNat < 2 ^ 32 := w.toUInt32.toNat_lt
  have whole : w.toUInt32.toNat / 2 ^ (8 * 0) % 2 ^ 8 +
      2 ^ 8 * (w.toUInt32.toNat / 2 ^ (8 * 1) % 2 ^ 8) +
      2 ^ 16 * (w.toUInt32.toNat / 2 ^ (8 * 2) % 2 ^ 8) +
      2 ^ 24 * (w.toUInt32.toNat / 2 ^ (8 * 3) % 2 ^ 8) = w.toUInt32.toNat := by
    omega
  rw [whole, UInt32.ofNat_toNat]
  rfl

/-- It is found nowhere else. -/
theorem word_putWord_of_apart {mem : Memory} {a b : Nat} {w : Int32}
    (apart : b + 4 ≤ a ∨ a + 4 ≤ b) : (mem.putWord a w).word b = mem.word b := by
  have outside : ∀ k < 4, (mem.putWord a w).byte (b + k) = mem.byte (b + k) := fun k hk =>
    byte_putWord_of_outside (by omega)
  rw [word, word, outside 1 (by omega), outside 2 (by omega), outside 3 (by omega)]
  rw [← Nat.add_zero b, outside 0 (by omega)]

/-! ## Words in a row -/

def putWords (mem : Memory) (a : Nat) : List Int32 → Memory
  | [] => mem
  | w :: rest => (mem.putWord a w).putWords (a + 4) rest

theorem size_putWords (mem : Memory) (a : Nat) (ws : List Int32) :
    (mem.putWords a ws).size = mem.size := by
  induction ws generalizing mem a with
  | nil => rfl
  | cons w ws ih => rw [putWords, ih, size_putWord]

/-- Only the bytes of the row change. -/
theorem byte_putWords_of_outside {mem : Memory} {a i : Nat} {ws : List Int32}
    (outside : i < a ∨ a + 4 * ws.length ≤ i) : (mem.putWords a ws).byte i = mem.byte i := by
  induction ws generalizing mem a with
  | nil => rfl
  | cons w ws ih =>
    rw [List.length_cons] at outside
    rw [putWords, ih (by omega), byte_putWord_of_outside (by omega)]

theorem word_putWords_of_below {mem : Memory} {a b : Nat} {ws : List Int32} (below : b + 4 ≤ a) :
    (mem.putWords a ws).word b = mem.word b := by
  induction ws generalizing mem a with
  | nil => rfl
  | cons w ws ih =>
    have further : b + 4 ≤ a + 4 := by omega
    rw [putWords, ih further, word_putWord_of_apart (Or.inl below)]

theorem word_putWords {mem : Memory} {a i : Nat} {ws : List Int32} {w : Int32}
    (found : ws[i]? = some w) : (mem.putWords a ws).word (a + 4 * i) = w := by
  induction ws generalizing mem a i with
  | nil => cases found
  | cons first ws ih =>
    rw [putWords]
    cases i with
    | zero =>
      have here : a + 4 * 0 = a := by omega
      rw [here, word_putWords_of_below (Nat.le_refl _), word_putWord]
      exact Option.some.inj found
    | succ i =>
      have shifted : a + 4 * (i + 1) = a + 4 + 4 * i := by omega
      rw [List.getElem?_cons_succ] at found
      rw [shifted, ih found]

end Memory

end ClassLang
