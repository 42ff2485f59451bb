/-
Values as words.

Objects lie one behind the other from address 4 on, in the order in which they were made, each with
one word for every field of its class.  So the address of an object is settled by the classes of the
objects before it, and does not change while more are made.
-/
import ClassLang.Proofs.Checker.Types
import ClassLang.Proofs.Lowering.Addresses
import ClassLang.Proofs.Machine.State
import ClassLang.Proofs.Semantics.Growth

namespace ClassLang

/-! ## Where objects lie -/

namespace Typed

variable (p : Program)

/-- How many fields an object of the class has. -/
def Program.slots (cls : String) : Nat := ((p.class? cls).map (·.fields.length)).getD 0

/-- How many bytes objects of these classes take up. -/
def Program.bytes : List String → Nat
  | [] => 0
  | cls :: rest => 4 * p.slots cls + bytes rest

theorem Program.bytes_append (front back : List String) :
    p.bytes (front ++ back) = p.bytes front + p.bytes back := by
  induction front with
  | nil => rw [List.nil_append, Program.bytes, Nat.zero_add]
  | cons cls rest ih => rw [List.cons_append, Program.bytes, Program.bytes, ih, Nat.add_assoc]

theorem Program.bytes_singleton (cls : String) : p.bytes [cls] = 4 * p.slots cls := rfl

end Typed

namespace World

variable (p : Typed.Program) (w : World)

/-- The first address behind all objects. -/
def heapEnd : Nat := 4 + p.bytes w.classes

def address (id : Nat) : Nat := 4 + p.bytes (w.classes.take id)

/-- The word that stands for a value. -/
def word : Value → Int32
  | .int n => n
  | .bool b => Machine.bit b
  | .none => 0
  | .ref id => addressWord (w.address p id)

variable {p w}

/-- The objects after one begin where it ends, or later. -/
theorem address_add_le {id id' : Nat} {cls : String} (found : w.classes[id]? = some cls)
    (lt : id < id') : w.address p id + 4 * p.slots cls ≤ w.address p id' := by
  obtain ⟨bound, eq⟩ := List.getElem?_eq_some_iff.1 found
  have next : w.classes.take (id + 1) = w.classes.take id ++ [cls] := by
    rw [List.take_add_one, found]
    rfl
  obtain ⟨rest, split⟩ : w.classes.take (id + 1) <+: w.classes.take id' :=
    List.take_prefix_take_left lt
  rw [address, address, ← split, next, p.bytes_append, p.bytes_append, p.bytes_singleton]
  omega

theorem address_add_le_heapEnd {id : Nat} {cls : String} (found : w.classes[id]? = some cls) :
    w.address p id + 4 * p.slots cls ≤ w.heapEnd p := by
  obtain ⟨bound, -⟩ := List.getElem?_eq_some_iff.1 found
  have last := address_add_le (p := p) found bound
  rwa [address, address, List.take_length] at last

theorem address_congr {w' : World} (same : w'.classes = w.classes) (id : Nat) :
    w'.address p id = w.address p id := by
  rw [address, address, same]

theorem word_congr {w' : World} (same : w'.classes = w.classes) (v : Value) :
    w'.word p v = w.word p v := by
  cases v with
  | ref id => rw [word, word, address_congr same]
  | _ => rfl

theorem heapEnd_congr {w' : World} (same : w'.classes = w.classes) :
    w'.heapEnd p = w.heapEnd p := by
  rw [heapEnd, heapEnd, same]

theorem four_le_address (id : Nat) : 4 ≤ w.address p id := Nat.le_add_right _ _

end World

/-! ## Values of a type -/

/-- The values that an expression of a type may have. -/
inductive Value.Fits (classes : List String) : Value → Ty → Prop
  | absent {ty : Ty} (reference : ty.isReference = true) : Fits classes .none ty
  | int (n : Int32) : Fits classes (.int n) .int
  | bool (b : Bool) : Fits classes (.bool b) .bool
  | ref {id : Nat} {cls : String} (made : classes[id]? = some cls) :
    Fits classes (.ref id) (.object cls)

/-- Refers to nothing but objects that have been made. -/
def Value.Made (classes : List String) : Value → Prop
  | .ref id => id < classes.length
  | _ => True

namespace Value

variable {classes : List String} {v : Value} {ty : Ty}

theorem Fits.made (h : v.Fits classes ty) : v.Made classes := by
  cases h with
  | ref made => exact (List.getElem?_eq_some_iff.1 made).1
  | _ => trivial

theorem Fits.eq_int (h : v.Fits classes .int) : ∃ n, v = .int n := by
  cases h with
  | absent reference => cases reference
  | int n => exact ⟨n, rfl⟩

theorem Fits.eq_bool (h : v.Fits classes .bool) : ∃ b, v = .bool b := by
  cases h with
  | absent reference => cases reference
  | bool b => exact ⟨b, rfl⟩

theorem Fits.isReference (h : v.Fits classes ty) (reference : ty.isReference = true) :
    v.isReference = true := by
  cases h with
  | absent _ | ref _ => rfl
  | int _ | bool _ => cases reference

theorem Fits.of_takes (h : v.Fits classes ty) {slot : Ty} (takes : slot.Takes ty)
    (concrete : slot ≠ .any) : v.Fits classes slot := by
  cases takes with
  | same => exact h
  | absent cls =>
    cases h with
    | absent => exact .absent rfl
  | any => exact absurd rfl concrete

theorem fits_literal (literal : Literal) : literal.value.Fits classes literal.ty := by
  cases literal with
  | none => exact .absent rfl
  | bool b => exact .bool b
  | int n => exact .int n

theorem fits_zero (concrete : ty ≠ .any) : ty.zero.Fits classes ty := by
  cases ty with
  | int => exact .int 0
  | bool => exact .bool false
  | none | object _ => exact .absent rfl
  | any => exact absurd rfl concrete

end Value

/-! ## What stays when objects are made -/

namespace World.Extends

variable {p : Typed.Program} {w w' : World} (h : w.Extends w')

include h

theorem getElem? {id : Nat} {cls : String} (found : w.classes[id]? = some cls) :
    w'.classes[id]? = some cls := by
  obtain ⟨rest, eq⟩ := h
  obtain ⟨bound, -⟩ := List.getElem?_eq_some_iff.1 found
  rw [← eq, List.getElem?_append_left bound, found]

theorem address {id : Nat} (bound : id ≤ w.classes.length) : w'.address p id = w.address p id := by
  obtain ⟨rest, eq⟩ := h
  rw [World.address, World.address, ← eq, List.take_append_of_le_length bound]

theorem heapEnd_le : w.heapEnd p ≤ w'.heapEnd p := by
  obtain ⟨rest, eq⟩ := h
  rw [World.heapEnd, World.heapEnd, ← eq, p.bytes_append]
  omega

theorem fits {v : Value} {ty : Ty} (fits : v.Fits w.classes ty) : v.Fits w'.classes ty := by
  cases fits with
  | absent reference => exact .absent reference
  | int n => exact .int n
  | bool b => exact .bool b
  | ref made => exact .ref (h.getElem? made)

theorem made {v : Value} (made : v.Made w.classes) : v.Made w'.classes := by
  cases v with
  | ref id => exact Nat.lt_of_lt_of_le made h.length_le
  | _ => trivial

theorem word {v : Value} (made : v.Made w.classes) : w'.word p v = w.word p v := by
  cases v with
  | ref id =>
    have bound : id ≤ w.classes.length := Nat.le_of_lt made
    rw [World.word, World.word, h.address bound]
  | _ => rfl

end World.Extends

/-! ## Different references are different words -/

namespace World

variable {p : Typed.Program} {w : World}

theorem address_lt_heapEnd (fielded : ∀ cls ∈ w.classes, 0 < p.slots cls) {id : Nat}
    (bound : id < w.classes.length) : w.address p id < w.heapEnd p := by
  have found := List.getElem?_eq_getElem bound
  have below := address_add_le_heapEnd (p := p) found
  have some_slot := fielded _ (List.getElem_mem bound)
  omega

theorem address_inj (fielded : ∀ cls ∈ w.classes, 0 < p.slots cls) {id id' : Nat}
    (bound : id < w.classes.length) (bound' : id' < w.classes.length)
    (eq : w.address p id = w.address p id') : id = id' := by
  have apart : ∀ {i j : Nat}, i < w.classes.length → i < j → w.address p i < w.address p j := by
    intro i j hi hij
    have below := address_add_le (p := p) (List.getElem?_eq_getElem hi) hij
    have some_slot := fielded _ (List.getElem_mem hi)
    omega
  rcases Nat.lt_trichotomy id id' with lt | same | gt
  · have := apart bound lt
    omega
  · exact same
  · have := apart bound' gt
    omega

theorem word_ref_ne_zero (fielded : ∀ cls ∈ w.classes, 0 < p.slots cls)
    (fits : w.heapEnd p ≤ 2 ^ 32) {id : Nat} (bound : id < w.classes.length) :
    w.word p (.ref id) ≠ 0 := by
  have below := address_lt_heapEnd fielded bound
  have above := four_le_address (p := p) (w := w) id
  exact addressWord_ne_zero (by omega) (by omega)

/-- Identity of references is equality of words. -/
theorem word_inj_of_isReference (fielded : ∀ cls ∈ w.classes, 0 < p.slots cls)
    (fits : w.heapEnd p ≤ 2 ^ 32) {a b : Value} (ha : a.isReference = true)
    (hb : b.isReference = true) (madeA : a.Made w.classes) (madeB : b.Made w.classes)
    (eq : w.word p a = w.word p b) : a = b := by
  cases a with
  | int _ | bool _ => cases ha
  | none =>
    cases b with
    | int _ | bool _ => cases hb
    | none => rfl
    | ref id => exact absurd eq.symm (word_ref_ne_zero fielded fits madeB)
  | ref id =>
    cases b with
    | int _ | bool _ => cases hb
    | none => exact absurd eq (word_ref_ne_zero fielded fits madeA)
    | ref id' =>
      have belowA := address_lt_heapEnd fielded madeA
      have belowB := address_lt_heapEnd fielded madeB
      have same := addressWord_inj (by omega) (by omega) eq
      rw [address_inj fielded madeA madeB same]

end World

end ClassLang
