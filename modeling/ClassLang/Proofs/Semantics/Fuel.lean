/-
More fuel changes nothing once a run has come to its end.

Fuel is spent by calls alone.  So it is enough that calls with more fuel go on as those with less
do, and everything that is made of them goes on likewise.
-/
import ClassLang.Proofs.Semantics.Congruence

namespace ClassLang

/-- Where `x` does not run out of fuel, `y` does the same. -/
def Deepens {α : Type} (x y : Eval α) : Prop :=
  ∀ w, (∃ w', x w = .error .unfinished w') ∨ y w = x w

namespace Deepens

variable {α β : Type}

theorem refl (x : Eval α) : Deepens x x := fun _ => Or.inr rfl

theorem trans {x y z : Eval α} (h : Deepens x y) (h' : Deepens y z) : Deepens x z := by
  intro w
  rcases h w with stopped | same
  · exact Or.inl stopped
  · rw [← same]
    exact h' w

theorem bind {x y : Eval α} {f g : α → Eval β} (first : Deepens x y)
    (rest : ∀ a, Deepens (f a) (g a)) : Deepens (x >>= f) (y >>= g) := by
  intro w
  show (∃ w', EStateM.bind x f w = _) ∨ EStateM.bind y g w = EStateM.bind x f w
  rw [EStateM.bind, EStateM.bind]
  rcases first w with ⟨w', stopped⟩ | same
  · exact Or.inl ⟨w', by rw [stopped]⟩
  · rw [same]
    cases x w with
    | ok a w' => exact rest a w'
    | error halt w' => exact Or.inr rfl

theorem congruence : Congruence Deepens where
  primitive := fun _ => .refl _
  bind := .bind

end Deepens

namespace Typed

variable {p : Program} {answers : String → List Int32 → Int32}

theorem Program.deepens_calls (fuel : Nat) :
    (p.calls answers fuel).Related Deepens (p.calls answers (fuel + 1)) := by
  induction fuel with
  | zero => exact fun _ _ _ w => Or.inl ⟨w, rfl⟩
  | succ fuel ih => exact Deepens.congruence.invoke ih

theorem Program.deepens_eval (fuel : Nat) :
    Deepens (p.eval answers fuel) (p.eval answers (fuel + 1)) :=
  Deepens.congruence.program (Program.deepens_calls fuel)

/-- A run that has ended with some fuel ends likewise with more. -/
theorem Program.run_of_le {fuel more : Nat} (le : fuel ≤ more)
    (finished : ∀ w, p.run answers fuel ≠ .error .unfinished w) :
    p.run answers more = p.run answers fuel := by
  have deepens : Deepens (p.eval answers fuel) (p.eval answers more) := by
    induction le with
    | refl => exact .refl _
    | @step more _ ih => exact ih.trans (Program.deepens_eval more)
  rcases deepens p.world with ⟨w, stopped⟩ | same
  · exact absurd stopped (finished w)
  · exact same

/-- What a program comes to, given as much fuel as it takes. -/
def Program.Evaluates (p : Program) (answers : String → List Int32 → Int32)
    (r : EStateM.Result Halt World (Option Value)) : Prop :=
  (∀ w, r ≠ .error .unfinished w) ∧ ∃ fuel, p.run answers fuel = r

theorem Program.Evaluates.unique {r r' : EStateM.Result Halt World (Option Value)}
    (h : p.Evaluates answers r) (h' : p.Evaluates answers r') : r = r' := by
  obtain ⟨finished, fuel, rfl⟩ := h
  obtain ⟨finished', fuel', rfl⟩ := h'
  rcases Nat.le_total fuel fuel' with le | le
  · exact (run_of_le le finished).symm
  · exact run_of_le le finished'

end Typed
end ClassLang
