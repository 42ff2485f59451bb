/-
The heap, as the calls so far have filled it.

Objects lie one behind the other from address 4 on, in the order in which the functions that make
them were called, and each takes up one word for every field of its class.  So the list of calls
settles where the object of a call lies, and calls that come later do not move it.  An object of a
class without fields takes up nothing: the next one lies at the same address.
-/
import ClassLang.Proofs.Lowering.Compiled
import ClassLang.Proofs.Machine.State
import Mathlib.Algebra.GroupWithZero.Nat

namespace ClassLang

/-- What is found in a list is found in every longer one. -/
theorem getElem?_of_prefix {α : Type} {l l' : List α} (grown : l <+: l') {k : Nat} {a : α}
    (found : l[k]? = some a) : l'[k]? = some a := by
  obtain ⟨bound, rfl⟩ := List.getElem?_eq_some_iff.1 found
  exact List.prefix_iff_getElem?.1 grown k bound

theorem constructorSymbol_inj {cls cls' : String}
    (same : constructorSymbol cls = constructorSymbol cls') : cls = cls' := by
  have lists := congrArg String.toList same
  rw [constructorSymbol, constructorSymbol, String.toList_append, String.toList_append] at lists
  exact String.toList_inj.1 (List.append_cancel_right lists)

namespace Typed

section

variable (p : Program)

/-- How many bytes a call of the function takes up: those of the object, if the function makes
one. -/
def Program.bytesOf (func : String) : Nat :=
  ((p.classes.find? (constructorSymbol ·.name = func)).map (4 * ·.fields.length)).getD 0

/-- The first address behind the objects of these calls. -/
def Program.heapTop (called : List String) : Nat := 4 + (called.map p.bytesOf).sum

/-- Where the object of a call lies. -/
def Program.handle (called : List String) (k : Nat) : Nat := p.heapTop (called.take k)

/-- The words that may stand for a value of a type, after these calls. -/
def Program.Fits (called : List String) : Ty → Int32 → Prop
  | .int, _ => True
  | .bool, w => w = 0 ∨ w = 1
  | .none, w => w = 0
  | .object cls, w =>
    w = 0 ∨ ∃ k, called[k]? = some (constructorSymbol cls) ∧ w = addressWord (p.handle called k)
  | .any, _ => False

/-- An object of these calls keeps the field `f` in the four bytes from `a` on. -/
def Program.IsSlot (called : List String) (a : Nat) (f : VarDef) : Prop :=
  ∃ c ∈ p.classes, ∃ k i, called[k]? = some (constructorSymbol c.name) ∧ c.fields[i]? = some f ∧
    a = p.handle called k + 4 * i

/-- The word is the address of a slot for values of the type. -/
def Program.PointsTo (called : List String) (ty : Ty) (w : Int32) : Prop :=
  ∃ a f, p.IsSlot called a f ∧ f.ty = ty ∧ w = addressWord a

end

variable {p : Program} {scope : Scope} {called called' : List String} {func : String} {k k' : Nat}

/-! ## Sizes -/

theorem Program.Checked.bytesOf_construct (checked : p.Checked scope) {c : Class}
    (mem : c ∈ p.classes) : p.bytesOf (constructorSymbol c.name) = 4 * c.fields.length := by
  have distinct : (p.classes.map fun c => constructorSymbol c.name).Nodup := by
    have mapped := checked.classes.distinct.map fun _ _ => constructorSymbol_inj
    rwa [List.map_map] at mapped
  rw [Program.bytesOf, find?_of_mem distinct mem]
  rfl

theorem Program.bytesOf_of_ne (other : ∀ c ∈ p.classes, constructorSymbol c.name ≠ func) :
    p.bytesOf func = 0 := by
  have found : p.classes.find? (constructorSymbol ·.name = func) = none := by
    rw [List.find?_eq_none]
    intro c mem eq
    exact other c mem (of_decide_eq_true eq)
  rw [Program.bytesOf, found]
  rfl

/-- Constructors of classes without fields take up nothing, and so does everything else. -/
theorem Program.Checked.bytesOf_eq_zero (checked : p.Checked scope) :
    p.bytesOf func = 0 ↔ ∀ c ∈ p.classes, func = constructorSymbol c.name → c.fields = [] := by
  constructor
  · intro none c mem eq
    rw [eq, checked.bytesOf_construct mem] at none
    exact List.length_eq_zero_iff.1 (by omega)
  · intro empty
    by_cases other : ∀ c ∈ p.classes, constructorSymbol c.name ≠ func
    · exact Program.bytesOf_of_ne other
    · simp only [not_forall, not_not] at other
      obtain ⟨c, mem, eq⟩ := other
      rw [← eq, checked.bytesOf_construct mem, empty c mem eq.symm]
      rfl

theorem Program.Plain.construct_ne_method (plain : p.Plain) {c d : Class} (hc : c ∈ p.classes)
    (hd : d ∈ p.classes) {m : Method} (hm : m ∈ d.methods) :
    constructorSymbol c.name ≠ methodSymbol d.name m.name := by
  intro same
  rw [constructorSymbol_eq] at same
  have named := (methodSymbol_inj (plain.classes c hc) (plain.classes d hd) same).2
  exact not_plain_constructor (named ▸ plain.methods d hd m hm)

theorem entryExport_ne_construct (c : Class) : entryExport ≠ constructorSymbol c.name := by
  rw [constructorSymbol_eq]
  exact entryExport_ne_methodSymbol _ _

/-! ## Where objects lie -/

theorem Program.heapTop_concat (called : List String) (func : String) :
    p.heapTop (called ++ [func]) = p.heapTop called + p.bytesOf func := by
  rw [Program.heapTop, Program.heapTop, List.map_append, List.sum_append]
  simp only [List.map_cons, List.map_nil, List.sum_cons, List.sum_nil]
  omega

theorem Program.heapTop_le (grown : called <+: called') : p.heapTop called ≤ p.heapTop called' := by
  obtain ⟨rest, rfl⟩ := grown
  rw [Program.heapTop, Program.heapTop, List.map_append, List.sum_append]
  omega

theorem Program.four_le_handle (called : List String) (k : Nat) : 4 ≤ p.handle called k :=
  Nat.le_add_right _ _

theorem Program.handle_length (called : List String) :
    p.handle called called.length = p.heapTop called := by
  rw [Program.handle, List.take_length]

/-- Later calls move nothing. -/
theorem Program.handle_of_prefix (grown : called <+: called') (bound : k ≤ called.length) :
    p.handle called' k = p.handle called k := by
  obtain ⟨rest, rfl⟩ := grown
  rw [Program.handle, Program.handle, List.take_append_of_le_length bound]

theorem Program.handle_succ (found : called[k]? = some func) :
    p.handle called (k + 1) = p.handle called k + p.bytesOf func := by
  have split : called.take (k + 1) = called.take k ++ [func] := by
    rw [List.take_add_one, found]
    rfl
  rw [Program.handle, split, Program.heapTop_concat, Program.handle]

theorem Program.handle_le (le : k ≤ k') : p.handle called k ≤ p.handle called k' :=
  Program.heapTop_le (List.take_prefix_take_left le)

/-- The objects after one begin where it ends, or later. -/
theorem Program.handle_add_le (found : called[k]? = some func) (lt : k < k') :
    p.handle called k + p.bytesOf func ≤ p.handle called k' := by
  rw [← Program.handle_succ found]
  exact Program.handle_le lt

theorem Program.handle_add_le_heapTop (found : called[k]? = some func) :
    p.handle called k + p.bytesOf func ≤ p.heapTop called := by
  have bound := (List.getElem?_eq_some_iff.1 found).1
  rw [← Program.handle_length]
  exact Program.handle_add_le found bound

/-- Two objects lie at one address if nothing is between them. -/
theorem Program.handle_eq_iff (le : k ≤ k') (bound : k' ≤ called.length) :
    p.handle called k = p.handle called k' ↔
      ∀ j, k ≤ j → j < k' → ∀ func, called[j]? = some func → p.bytesOf func = 0 := by
  induction le with
  | refl =>
    refine ⟨fun _ j ge lt => ?_, fun _ => rfl⟩
    omega
  | @step k' le ih =>
    have found : called[k']? = some called[k'] := List.getElem?_eq_getElem bound
    have next := Program.handle_succ (p := p) found
    rw [Nat.succ_eq_add_one]
    have before : p.handle called k ≤ p.handle called k' := Program.handle_le le
    have ih := ih (Nat.le_of_lt bound)
    constructor
    · intro same j ge lt func there
      rcases Nat.lt_succ_iff_lt_or_eq.1 lt with lt | rfl
      · exact ih.1 (by omega) j ge lt func there
      · cases found.symm.trans there
        omega
    · intro empty
      have last := empty k' le (Nat.lt_succ_self k') _ found
      have rest := ih.2 fun j ge lt => empty j ge (Nat.lt_succ_of_lt lt)
      omega

/-! ## Words of a type -/

namespace Program.Fits

variable {ty slot : Ty} {w : Int32}

theorem grow (fits : p.Fits called ty w) (grown : called <+: called') : p.Fits called' ty w := by
  cases ty with
  | object cls =>
    rcases fits with rfl | ⟨k, found, rfl⟩
    · exact Or.inl rfl
    · have bound := (List.getElem?_eq_some_iff.1 found).1
      refine Or.inr ⟨k, getElem?_of_prefix grown found, ?_⟩
      rw [Program.handle_of_prefix grown (Nat.le_of_lt bound)]
  | _ => exact fits

theorem zero (concrete : ty ≠ .any) : p.Fits called ty 0 := by
  cases ty with
  | int => trivial
  | bool => exact Or.inl rfl
  | none => exact Eq.refl (0 : Int32)
  | object cls => exact Or.inl rfl
  | any => exact absurd rfl concrete

theorem literal (value : Literal) : p.Fits called value.ty value.word := by
  cases value with
  | none => exact Eq.refl (0 : Int32)
  | int n => trivial
  | bool b =>
    cases b with
    | false => exact Or.inl rfl
    | true => exact Or.inr rfl

theorem bit (b : Bool) : p.Fits called .bool (Machine.bit b) := Machine.bit_cases b

theorem of_takes (fits : p.Fits called ty w) (takes : slot.Takes ty) (concrete : slot ≠ .any) :
    p.Fits called slot w := by
  cases takes with
  | same => exact fits
  | absent cls => exact Or.inl fits
  | any => exact absurd rfl concrete

/-- The object that a call has made. -/
theorem made {cls : String} (found : called[k]? = some (constructorSymbol cls)) :
    p.Fits called (.object cls) (addressWord (p.handle called k)) :=
  Or.inr ⟨k, found, rfl⟩

end Program.Fits

theorem Program.Fits.passed {params args : List Ty} {ws : List Int32}
    (fits : List.Forall₂ (p.Fits called) args ws) (passed : Passes params args)
    (concrete : ∀ ty ∈ params, ty ≠ .any) : List.Forall₂ (p.Fits called) params ws := by
  induction passed generalizing ws with
  | nil => exact fits
  | cons takes _ ih =>
    cases fits with
    | cons first rest =>
      exact .cons (first.of_takes takes (concrete _ List.mem_cons_self))
        (ih rest fun ty mem => concrete ty (List.mem_cons_of_mem _ mem))

/-! ## Slots -/

namespace Program.IsSlot

variable {a b : Nat} {f g : VarDef}

theorem four_le (slot : p.IsSlot called a f) : 4 ≤ a := by
  obtain ⟨c, -, k, i, -, -, rfl⟩ := slot
  have base := Program.four_le_handle (p := p) called k
  omega

theorem add_le_heapTop (slot : p.IsSlot called a f) (checked : p.Checked scope) :
    a + 4 ≤ p.heapTop called := by
  obtain ⟨c, mem, k, i, found, field, rfl⟩ := slot
  have top := Program.handle_add_le_heapTop (p := p) found
  have inside := (List.getElem?_eq_some_iff.1 field).1
  rw [checked.bytesOf_construct mem] at top
  omega

theorem grow (slot : p.IsSlot called a f) (grown : called <+: called') : p.IsSlot called' a f := by
  obtain ⟨c, mem, k, i, found, field, rfl⟩ := slot
  have bound := (List.getElem?_eq_some_iff.1 found).1
  refine ⟨c, mem, k, i, getElem?_of_prefix grown found, field, ?_⟩
  rw [Program.handle_of_prefix grown (Nat.le_of_lt bound)]

/-- A call adds no slots below the first free address. -/
theorem of_concat (slot : p.IsSlot (called ++ [func]) a f) (below : a + 4 ≤ p.heapTop called) :
    p.IsSlot called a f := by
  obtain ⟨c, mem, k, i, found, field, rfl⟩ := slot
  have grown : called <+: called ++ [func] := List.prefix_append _ _
  rcases Nat.lt_or_ge k called.length with lt | ge
  · rw [List.getElem?_append_left lt] at found
    rw [Program.handle_of_prefix grown (Nat.le_of_lt lt)]
    exact ⟨c, mem, k, i, found, field, rfl⟩
  · have high : p.heapTop called ≤ p.handle (called ++ [func]) k := by
      rw [← Program.handle_length called, ← Program.handle_of_prefix grown (Nat.le_refl _)]
      exact Program.handle_le ge
    omega

/-- Different slots have no byte in common. -/
theorem apart (slot : p.IsSlot called a f) (other : p.IsSlot called b g)
    (checked : p.Checked scope) : a = b ∧ f = g ∨ a + 4 ≤ b ∨ b + 4 ≤ a := by
  obtain ⟨c, hc, k, i, found, field, rfl⟩ := slot
  obtain ⟨d, hd, l, j, found', field', rfl⟩ := other
  have inside := (List.getElem?_eq_some_iff.1 field).1
  have inside' := (List.getElem?_eq_some_iff.1 field').1
  rcases Nat.lt_trichotomy k l with lt | rfl | gt
  · have below := Program.handle_add_le (p := p) found lt
    rw [checked.bytesOf_construct hc] at below
    omega
  · have same := constructorSymbol_inj (Option.some.inj (found.symm.trans found'))
    have eq : c = d := List.inj_on_of_nodup_map checked.classes.distinct hc hd same
    subst eq
    by_cases here : i = j
    · subst here
      exact Or.inl ⟨rfl, Option.some.inj (field.symm.trans field')⟩
    · omega
  · have below := Program.handle_add_le (p := p) found' gt
    rw [checked.bytesOf_construct hd] at below
    omega

end Program.IsSlot

theorem Program.PointsTo.grow {ty : Ty} {w : Int32} (points : p.PointsTo called ty w)
    (grown : called <+: called') : p.PointsTo called' ty w := by
  obtain ⟨a, f, slot, same, rfl⟩ := points
  exact ⟨a, f, slot.grow grown, same, rfl⟩

end Typed

/-- No body is the code of a function that makes objects. -/
theorem Compiled.Body.ne_construct {S : Compiled} {func : String} {scope : Scope}
    {own : List Param} (body : S.Body func scope own) {c : Typed.Class}
    (mem : c ∈ S.program.classes) : func ≠ constructorSymbol c.name := by
  cases body with
  | entry => exact Typed.entryExport_ne_construct c
  | method hc hm _ => exact (S.plain.construct_ne_method mem hc hm).symm

end ClassLang
