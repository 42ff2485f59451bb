/-
When the checker blames itself.

Two of its rules, that of what goes into a slot and that of operands, have no answer for a value of
type `any`.  The relations below follow the order in which violations are found: a tree meets `any`
if nothing before is wrong with it and the next rule to be asked is one of those two, about a value
of that type.
-/
import ClassLang.Proofs.Checker.Program
import ClassLang.Proofs.Checker.Concrete
import ClassLang.Proofs.Checker.Naming

namespace ClassLang

/-- The computation ends in an error of the checker's own making. -/
def Breaks {α : Type} (x : Except Error α) : Prop := ∃ d, x = .error (.internal d)

section Breaks

variable {α β : Type}

theorem breaks_bind {x : Except Error α} {f : α → Except Error β} :
    Breaks (x >>= f) ↔ Breaks x ∨ ∃ a, x = .ok a ∧ Breaks (f a) := by
  cases x <;> simp [Breaks, bind, Except.bind]

theorem not_breaks_ok {a : α} : ¬Breaks (.ok a) := fun ⟨_, h⟩ => nomatch h

theorem not_breaks_pure {a : α} : ¬Breaks (pure a) := fun ⟨_, h⟩ => nomatch h

theorem not_breaks_error {e : Error} (h : e.family = .type) :
    ¬Breaks (.error e : Except Error α) := by
  rintro ⟨d, eq⟩
  cases eq
  cases h

theorem not_breaks_throw {e : Error} (h : e.family = .type) : ¬Breaks (throw e : Except Error α) :=
  not_breaks_error h

theorem not_breaks_bind_pure {x : Except Error α} {g : α → β} :
    Breaks (x >>= fun a => pure (g a)) ↔ Breaks x := by
  rw [breaks_bind]
  exact or_iff_left fun ⟨_, _, h⟩ => not_breaks_pure h

theorem breaks_mapM {f : α → Except Error β} {l : List α} :
    Breaks (l.mapM f) ↔
      ∃ before a after, l = before ++ a :: after ∧ (∀ b ∈ before, ∃ c, f b = .ok c) ∧
        Breaks (f a) := by
  simp only [Breaks, mapM_eq_error]
  constructor
  · rintro ⟨d, before, a, after, done, rfl, passed, broken⟩
    rw [mapM_eq_ok] at passed
    refine ⟨before, a, after, rfl, fun b mem => ?_, d, broken⟩
    obtain ⟨c, -, hc⟩ := exists_right_of_forall₂ passed mem
    exact ⟨c, hc⟩
  · rintro ⟨before, a, after, rfl, passed, d, broken⟩
    obtain ⟨done, hdone⟩ := exists_mapM_ok passed
    exact ⟨d, before, a, after, done, rfl, hdone, broken⟩

theorem FailsNaming.not_breaks {x : Except Error α} (h : FailsNaming x) : ¬Breaks x :=
  fun ⟨_, failed⟩ => nomatch h _ failed

end Breaks

/-! ## The rules -/

namespace Ty

theorem require_breaks {slot value : Ty} {refusal : Error} (h : refusal.family = .type) :
    Breaks (slot.require value refusal) ↔ value = .any := by
  simp only [require, breaks_bind]
  constructor
  · rintro (broken | ⟨answer, _, broken⟩)
    · cases value with
      | any => rfl
      | _ => exact absurd broken not_breaks_ok
    · cases answer with
      | false => exact absurd broken (not_breaks_throw h)
      | true => exact absurd broken not_breaks_pure
  · rintro rfl
    exact Or.inl ⟨_, rfl⟩

end Ty

theorem BinOp.check_breaks {op : BinOp} {lhs rhs : Ty} :
    Breaks (op.check lhs rhs) ↔ lhs = .any ∨ rhs = .any := by
  simp only [check, breaks_bind]
  constructor
  · rintro (broken | ⟨answer, _, broken⟩)
    · unfold Ty.same at broken
      split at broken
      · next h => exact h
      · exact absurd broken not_breaks_ok
    · split at broken
      · exact absurd broken not_breaks_pure
      · exact absurd broken (not_breaks_throw rfl)
  · intro h
    exact Or.inl ⟨.anyOperand, by rw [Ty.same, if_pos h]⟩

/-- Arguments that go into their parameters, as far as there are both. -/
def Fits (params args : List Ty) : Prop := ∀ pair ∈ params.zip args, pair.1.Takes pair.2

theorem checkArgTys_breaks {callee : String} {index : Nat} {params args : List Ty}
    (count : args.length = params.length) :
    Breaks (checkArgTys callee index params args) ↔
      ∃ before after, args = before ++ Ty.any :: after ∧ Fits params before := by
  induction params generalizing args index with
  | nil =>
    cases List.length_eq_zero_iff.1 count
    refine iff_of_false not_breaks_ok ?_
    rintro ⟨before, after, eq, _⟩
    cases before <;> cases eq
  | cons param params ih =>
    cases args with
    | nil => cases count
    | cons arg args =>
      rw [checkArgTys, breaks_bind, Ty.require_breaks rfl]
      constructor
      · rintro (rfl | ⟨_, takes, broken⟩)
        · exact ⟨[], args, rfl, List.forall_mem_nil _⟩
        · obtain ⟨before, after, rfl, fits⟩ := (ih (Nat.succ.inj count)).1 broken
          exact ⟨arg :: before, after, rfl,
            List.forall_mem_cons.2 ⟨Ty.require_eq_ok.1 takes, fits⟩⟩
      · rintro ⟨before, after, eq, fits⟩
        cases before with
        | nil =>
          cases eq
          exact Or.inl rfl
        | cons first before =>
          cases eq
          obtain ⟨takes, fits⟩ := List.forall_mem_cons.1 fits
          exact Or.inr ⟨(), Ty.require_eq_ok.2 takes,
            (ih (Nat.succ.inj count)).2 ⟨before, after, rfl, fits⟩⟩

end ClassLang
