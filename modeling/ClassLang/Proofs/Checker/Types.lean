/-
The tables of types, as relations: which slots take which values, and which operands each operator
works on.
-/
import ClassLang.Operator
import ClassLang.Proofs.Except
import Mathlib.Tactic.Common

namespace ClassLang

namespace Ty

/-- Every slot takes values of its own type, the absent value goes into every object, and a slot of
type `any` takes everything. -/
inductive Takes : (slot value : Ty) → Prop
  | same {ty : Ty} (concrete : ty ≠ .any) : Takes ty ty
  | absent (cls : String) : Takes (.object cls) .none
  | any {value : Ty} (concrete : value ≠ .any) : Takes .any value

theorem accepts_eq_ok_true {slot value : Ty} :
    slot.accepts value = .ok true ↔ slot.Takes value := by
  constructor
  · intro h
    cases value with
    | any => cases h
    | none =>
      cases slot with
      | int | bool => cases h
      | none => exact .same nofun
      | any => exact .any nofun
      | object cls => exact .absent cls
    | int | bool | object _ =>
      have h : (slot == _ || slot == Ty.any) = true := Except.ok.inj h
      rw [Bool.or_eq_true, beq_iff_eq, beq_iff_eq] at h
      rcases h with rfl | rfl
      · exact .same nofun
      · exact .any nofun
  · intro h
    cases h with
    | absent cls => rfl
    | same concrete => cases slot <;> simp_all [accepts]
    | any concrete => cases value <;> simp_all [accepts]

theorem require_eq_ok {slot value : Ty} {refusal : Error} {u : Unit} :
    slot.require value refusal = .ok u ↔ slot.Takes value := by
  rw [← accepts_eq_ok_true]
  simp only [require, bind_eq_ok]
  constructor
  · rintro ⟨answer, h, h'⟩
    cases answer with
    | false => cases h'
    | true => exact h
  · exact fun h => ⟨true, h, rfl⟩

theorem Takes.value_ne_any {slot value : Ty} (h : slot.Takes value) : value ≠ .any := by
  cases h with
  | same concrete | any concrete => exact concrete
  | absent cls => nofun

theorem takes_none_iff {slot : Ty} : slot.Takes .none ↔ slot ≠ .int ∧ slot ≠ .bool := by
  constructor
  · intro h
    cases h <;> exact ⟨Ty.noConfusion, Ty.noConfusion⟩
  · rintro ⟨notInt, notBool⟩
    cases slot with
    | int => exact absurd rfl notInt
    | bool => exact absurd rfl notBool
    | none => exact .same nofun
    | any => exact .any nofun
    | object cls => exact .absent cls

theorem isReference_iff {ty : Ty} :
    ty.isReference = true ↔ ty = .none ∨ ∃ cls, ty = .object cls := by
  cases ty <;> simp [isReference]

theorem same_eq_ok {a b : Ty} {answer : Bool} :
    a.same b = .ok answer ↔ a ≠ .any ∧ b ≠ .any ∧ answer = decide (a = b) := by
  unfold same
  by_cases h : a = .any ∨ b = .any
  · rw [if_pos h]
    exact ⟨nofun, fun ⟨ha, hb, _⟩ => (h.elim ha hb).elim⟩
  · rw [if_neg h, Except.ok.injEq]
    rw [not_or] at h
    exact ⟨fun e => ⟨h.1, h.2, e.symm⟩, fun e => e.2.2.symm⟩

end Ty

namespace BinOp

/-- Numbers are added up and compared, truth values are compared for equality, and references by
identity. -/
inductive Types : BinOp → (lhs rhs result : Ty) → Prop
  | arithmetic {op : BinOp} (h : op.isArithmetic = true) : Types op .int .int .int
  | compare {op : BinOp} (h : op.isArithmetic = false) (notIs : op ≠ .is) :
    Types op .int .int .bool
  | eq : Types .eq .bool .bool .bool
  | ne : Types .ne .bool .bool .bool
  | identity {lhs rhs : Ty} (left : lhs.isReference = true) (right : rhs.isReference = true) :
    Types .is lhs rhs .bool

/-- On operands of one type. -/
theorem resultTy?_eq_some {op : BinOp} {operand result : Ty} :
    op.resultTy? operand = some result ↔ op.Types operand operand result := by
  constructor
  · intro h
    cases operand with
    | any => cases h
    | int =>
      simp only [resultTy?] at h
      split at h
      · cases h
      · next notIs =>
        cases ha : op.isArithmetic <;> rw [ha] at h <;> cases h
        · exact .compare ha notIs
        · exact .arithmetic ha
    | bool =>
      simp only [resultTy?] at h
      split at h
      · next hop =>
        cases h
        rcases hop with rfl | rfl
        · exact .eq
        · exact .ne
      · cases h
    | none | object _ =>
      simp only [resultTy?] at h
      split at h
      · next hop => cases h; cases hop; exact .identity rfl rfl
      · cases h
  · intro h
    cases h with
    | arithmetic h =>
      have notIs : op ≠ .is := by rintro rfl; cases h
      simp [resultTy?, h, notIs]
    | compare h notIs => simp [resultTy?, h, notIs]
    | eq | ne => rfl
    | identity left right => cases operand <;> first | rfl | cases left

theorem Types.lhs_ne_any {op : BinOp} {lhs rhs result : Ty} (h : op.Types lhs rhs result) :
    lhs ≠ .any := by
  cases h with
  | identity left right => rintro rfl; cases left
  | _ => nofun

theorem Types.rhs_ne_any {op : BinOp} {lhs rhs result : Ty} (h : op.Types lhs rhs result) :
    rhs ≠ .any := by
  cases h with
  | identity left right => rintro rfl; cases right
  | _ => nofun

/-- Operands of two types are references compared by identity. -/
theorem Types.of_ne {op : BinOp} {lhs rhs result : Ty} (h : op.Types lhs rhs result)
    (ne : lhs ≠ rhs) :
    op = .is ∧ lhs.isReference = true ∧ rhs.isReference = true ∧ result = .bool := by
  cases h with
  | identity left right => exact ⟨rfl, left, right, rfl⟩
  | _ => exact absurd rfl ne

theorem check_eq_ok {op : BinOp} {lhs rhs result : Ty} :
    op.check lhs rhs = .ok result ↔ op.Types lhs rhs result := by
  simp only [check, bind_eq_ok, Ty.same_eq_ok]
  constructor
  · rintro ⟨_, ⟨hl, hr, rfl⟩, h⟩
    by_cases eq : lhs = rhs
    · subst eq
      simp only [decide_true, if_true] at h
      split at h
      · next hty => cases h; exact resultTy?_eq_some.1 hty
      · cases h
    · simp only [eq, decide_false, Bool.false_eq_true, if_false] at h
      split at h
      · next hty =>
        cases h
        split at hty
        · next refs => cases hty; obtain ⟨rfl, left, right⟩ := refs; exact .identity left right
        · cases hty
      · cases h
  · intro h
    refine ⟨_, ⟨h.lhs_ne_any, h.rhs_ne_any, rfl⟩, ?_⟩
    by_cases eq : lhs = rhs
    · subst eq
      simp only [decide_true, if_true, resultTy?_eq_some.2 h]
      rfl
    · obtain ⟨rfl, left, right, rfl⟩ := h.of_ne eq
      simp only [eq, decide_false, Bool.false_eq_true, if_false, left, right, and_self, if_true]
      rfl

end BinOp

end ClassLang
