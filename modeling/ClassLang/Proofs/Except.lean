/-
Taking apart computations that may fail.

A sequence succeeds if each of its parts does, and fails with the error of its first failing part.
-/
import Mathlib.Data.List.Forall2

namespace ClassLang

variable {ε α β : Type}

theorem bind_eq_ok {x : Except ε α} {f : α → Except ε β} {b : β} :
    x >>= f = .ok b ↔ ∃ a, x = .ok a ∧ f a = .ok b := by
  cases x <;> simp [bind, Except.bind]

theorem bind_eq_error {x : Except ε α} {f : α → Except ε β} {e : ε} :
    x >>= f = .error e ↔ x = .error e ∨ ∃ a, x = .ok a ∧ f a = .error e := by
  cases x <;> simp [bind, Except.bind]

theorem pure_eq_ok {a b : α} : (pure a : Except ε α) = .ok b ↔ a = b := by
  simp [pure, Except.pure]

theorem pure_eq_error {a : α} {e : ε} : (pure a : Except ε α) = .error e ↔ False := by
  simp [pure, Except.pure]

theorem throw_eq_ok {e : ε} {a : α} : (throw e : Except ε α) = .ok a ↔ False := by
  simp [throw, throwThe, MonadExceptOf.throw]

theorem throw_bind {e : ε} {f : α → Except ε β} : throw e >>= f = throw e := rfl

/-- A sequence that does to translated values what another does to the values themselves has a
translation of its answer, and the same errors. -/
theorem bind_eq_map_bind {α' β' : Type} {x' : Except ε α'} {x : Except ε α}
    {k' : α' → Except ε β'} {k : α → Except ε β} {f : α → α'} {g : β → β'} (first : x' = x.map f)
    (next : ∀ a, x = .ok a → k' (f a) = (k a).map g) : x' >>= k' = (x >>= k).map g := by
  subst first
  cases x with
  | error e => rfl
  | ok a => exact next a rfl

theorem bind_eq_map_bind_of_same {β' : Type} {x : Except ε α} {k' : α → Except ε β'}
    {k : α → Except ε β} {g : β → β'} (next : ∀ a, x = .ok a → k' a = (k a).map g) :
    x >>= k' = (x >>= k).map g := by
  cases x with
  | error e => rfl
  | ok a => exact next a rfl

/-- A guard is passed where its condition does not hold. -/
theorem guard_eq_ok {c : Prop} [Decidable c] {e : ε} {x : Except ε α} {a : α} :
    (if c then throw e else x) = .ok a ↔ ¬c ∧ x = .ok a := by
  by_cases h : c <;> simp [h, throw_eq_ok]

theorem mapM_eq_ok {f : α → Except ε β} {l : List α} {r : List β} :
    l.mapM f = .ok r ↔ List.Forall₂ (fun a b => f a = .ok b) l r := by
  induction l generalizing r with
  | nil =>
    rw [List.mapM_nil, pure_eq_ok]
    constructor
    · rintro rfl; exact .nil
    · intro h; cases h; rfl
  | cons a l ih =>
    simp only [List.mapM_cons, bind_eq_ok, pure_eq_ok]
    constructor
    · rintro ⟨b, hb, bs, hbs, rfl⟩
      exact .cons hb (ih.1 hbs)
    · intro h
      cases h with
      | cons hb hbs => exact ⟨_, hb, _, ih.2 hbs, rfl⟩

/-- A pass over translated elements gives the translations of what the pass over the elements
gives, if it does so for each of them. -/
theorem mapM_map_eq_map {α' β' : Type} {f' : α' → Except ε β'} {f : α → Except ε β} {h : α → α'}
    {g : β → β'} {l : List α} (each : ∀ a ∈ l, f' (h a) = (f a).map g) :
    (l.map h).mapM f' = (l.mapM f).map (List.map g) := by
  induction l with
  | nil => rfl
  | cons a l ih =>
    obtain ⟨first, rest⟩ := List.forall_mem_cons.1 each
    rw [List.map_cons, List.mapM_cons, List.mapM_cons]
    refine bind_eq_map_bind first fun _ _ => ?_
    exact bind_eq_map_bind (ih rest) fun _ _ => rfl

/-- A pass over a list fails where it meets the first element that fails. -/
theorem mapM_eq_error {f : α → Except ε β} {l : List α} {e : ε} :
    l.mapM f = .error e ↔
      ∃ before a after done, l = before ++ a :: after ∧ before.mapM f = .ok done ∧
        f a = .error e := by
  induction l with
  | nil =>
    rw [List.mapM_nil, pure_eq_error, false_iff]
    rintro ⟨before, a, after, _, hl, _⟩
    cases before <;> cases hl
  | cons head l ih =>
    simp only [List.mapM_cons, bind_eq_error, pure_eq_error, and_false, exists_false, or_false]
    constructor
    · rintro (h | ⟨b, hb, h⟩)
      · exact ⟨[], head, l, [], rfl, rfl, h⟩
      · obtain ⟨before, a, after, done, rfl, hdone, ha⟩ := ih.1 h
        refine ⟨head :: before, a, after, b :: done, rfl, ?_, ha⟩
        simp only [List.mapM_cons, bind_eq_ok, pure_eq_ok]
        exact ⟨b, hb, done, hdone, rfl⟩
    · rintro ⟨before, a, after, done, hl, hdone, ha⟩
      cases before with
      | nil =>
        obtain ⟨rfl, rfl⟩ := List.cons.inj hl
        exact Or.inl ha
      | cons first before =>
        obtain ⟨rfl, rfl⟩ := List.cons.inj hl
        simp only [List.mapM_cons, bind_eq_ok, pure_eq_ok] at hdone
        obtain ⟨b, hb, bs, hbs, rfl⟩ := hdone
        exact Or.inr ⟨b, hb, ih.2 ⟨before, a, after, bs, rfl, hbs, ha⟩⟩

/-- A fold over a list fails where the first of its steps fails. -/
theorem foldlM_eq_error {f : β → α → Except ε β} {l : List α} {b : β} {e : ε} :
    l.foldlM f b = .error e ↔
      ∃ before a after middle, l = before ++ a :: after ∧ before.foldlM f b = .ok middle ∧
        f middle a = .error e := by
  induction l generalizing b with
  | nil =>
    rw [List.foldlM_nil, pure_eq_error, false_iff]
    rintro ⟨before, a, after, _, hl, _⟩
    cases before <;> cases hl
  | cons head l ih =>
    simp only [List.foldlM_cons, bind_eq_error]
    constructor
    · rintro (h | ⟨next, hnext, h⟩)
      · exact ⟨[], head, l, b, rfl, rfl, h⟩
      · obtain ⟨before, a, after, middle, rfl, passed, h⟩ := ih.1 h
        refine ⟨head :: before, a, after, middle, rfl, ?_, h⟩
        rw [List.foldlM_cons, bind_eq_ok]
        exact ⟨next, hnext, passed⟩
    · rintro ⟨before, a, after, middle, hl, passed, h⟩
      cases before with
      | nil =>
        obtain ⟨rfl, rfl⟩ := List.cons.inj hl
        cases passed
        exact Or.inl h
      | cons first before =>
        obtain ⟨rfl, rfl⟩ := List.cons.inj hl
        rw [List.foldlM_cons, bind_eq_ok] at passed
        obtain ⟨next, hnext, passed⟩ := passed
        exact Or.inr ⟨next, hnext, ih.2 ⟨before, a, after, middle, rfl, passed, h⟩⟩

theorem exists_mapM_ok {f : α → Except ε β} {l : List α} (h : ∀ a ∈ l, ∃ b, f a = .ok b) :
    ∃ r, l.mapM f = .ok r := by
  induction l with
  | nil => exact ⟨[], rfl⟩
  | cons a l ih =>
    obtain ⟨⟨b, hb⟩, rest⟩ := List.forall_mem_cons.1 h
    obtain ⟨bs, hbs⟩ := ih rest
    exact ⟨b :: bs, mapM_eq_ok.2 (.cons hb (mapM_eq_ok.1 hbs))⟩

theorem forM_eq_ok {f : α → Except ε Unit} {l : List α} {u : Unit} :
    l.forM f = .ok u ↔ ∀ a ∈ l, f a = .ok () := by
  induction l with
  | nil => simp [pure, Except.pure]
  | cons a l ih =>
    rw [List.forall_mem_cons, ← ih]
    show (f a >>= fun _ => l.forM f) = .ok u ↔ _
    rw [bind_eq_ok]
    exact ⟨fun ⟨_, h, h'⟩ => ⟨h, h'⟩, fun ⟨h, h'⟩ => ⟨(), h, h'⟩⟩

/-! ## What a pass leaves beside what it goes over -/

theorem exists_left_of_forall₂ {R : α → β → Prop} {l : List α} {r : List β}
    (h : List.Forall₂ R l r) {b : β} (mem : b ∈ r) : ∃ a ∈ l, R a b := by
  induction h with
  | nil => cases mem
  | cons hab _ ih =>
    rcases List.mem_cons.1 mem with rfl | mem
    · exact ⟨_, List.mem_cons_self, hab⟩
    · obtain ⟨a, ha, hR⟩ := ih mem
      exact ⟨a, List.mem_cons_of_mem _ ha, hR⟩

theorem exists_right_of_forall₂ {R : α → β → Prop} {l : List α} {r : List β}
    (h : List.Forall₂ R l r) {a : α} (mem : a ∈ l) : ∃ b ∈ r, R a b :=
  exists_left_of_forall₂ h.flip mem

theorem map_eq_of_forall₂ {γ : Type} {R : α → β → Prop} {f : α → γ} {g : β → γ} {l : List α}
    {r : List β} (h : List.Forall₂ R l r) (same : ∀ a b, a ∈ l → R a b → g b = f a) :
    r.map g = l.map f := by
  induction h with
  | nil => rfl
  | cons hab _ ih =>
    rw [List.map_cons, List.map_cons, same _ _ List.mem_cons_self hab,
      ih fun a b mem => same a b (List.mem_cons_of_mem _ mem)]

/-- If what `R` relates to changed elements is what it relates to the elements themselves, changed
in the same way and on some condition, then so it is for whole lists. -/
theorem forall₂_map_iff {R : α → β → Prop} {P : α → Prop} {f : α → α} {g : β → β}
    (h : ∀ a b', R (f a) b' ↔ P a ∧ ∃ b, R a b ∧ g b = b') {l : List α} {r' : List β} :
    List.Forall₂ R (l.map f) r' ↔ (∀ a ∈ l, P a) ∧ ∃ r, List.Forall₂ R l r ∧ r.map g = r' := by
  rw [List.forall₂_map_left_iff]
  constructor
  · intro pass
    induction pass with
    | nil => exact ⟨List.forall_mem_nil _, [], .nil, rfl⟩
    | cons first _ ih =>
      obtain ⟨holds, b, hR, rfl⟩ := (h _ _).1 first
      obtain ⟨others, r, hr, rfl⟩ := ih
      exact ⟨List.forall_mem_cons.2 ⟨holds, others⟩, b :: r, .cons hR hr, rfl⟩
  · rintro ⟨holds, r, pass, rfl⟩
    induction pass with
    | nil => exact .nil
    | cons hR _ ih =>
      obtain ⟨first, others⟩ := List.forall_mem_cons.1 holds
      exact .cons ((h _ _).2 ⟨first, _, hR, rfl⟩) (ih others)

/-! ## What a computation may fail with -/

/-- The computation fails, if at all, with an error of which `P` holds. -/
def FailsWith (P : ε → Prop) (x : Except ε α) : Prop := ∀ e, x = .error e → P e

namespace FailsWith

variable {P : ε → Prop}

theorem mono {Q : ε → Prop} {x : Except ε α} (h : FailsWith P x) (weaker : ∀ e, P e → Q e) :
    FailsWith Q x :=
  fun e failed => weaker e (h e failed)

theorem ok (a : α) : FailsWith P (.ok a) := nofun

theorem pure (a : α) : FailsWith P (Pure.pure a) := nofun

theorem error {e : ε} (h : P e) : FailsWith P (.error e : Except ε α) := by
  rintro _ ⟨⟩
  exact h

theorem throw {e : ε} (h : P e) : FailsWith P (MonadExcept.throw e : Except ε α) := error h

/-- What stands behind a throw does not matter. -/
theorem throw_bind {e : ε} (h : P e) {f : α → Except ε β} :
    FailsWith P (MonadExcept.throw e >>= f) := error h

theorem bind {x : Except ε α} {f : α → Except ε β} (first : FailsWith P x)
    (next : ∀ a, FailsWith P (f a)) : FailsWith P (x >>= f) := by
  intro e failed
  rcases bind_eq_error.1 failed with failed | ⟨a, -, failed⟩
  · exact first e failed
  · exact next a e failed

/-- An error of another kind comes from what stands behind. -/
theorem bind_eq_error {x : Except ε α} (first : FailsWith P x) {f : α → Except ε β} {e : ε}
    (other : ¬P e) : x >>= f = .error e ↔ ∃ a, x = .ok a ∧ f a = .error e := by
  rw [ClassLang.bind_eq_error]
  exact or_iff_right fun failed => other (first e failed)

theorem ite {c : Prop} [Decidable c] {x y : Except ε α} (yes : FailsWith P x)
    (no : FailsWith P y) : FailsWith P (if c then x else y) := by
  split
  · exact yes
  · exact no

theorem mapM {f : α → Except ε β} (each : ∀ a, FailsWith P (f a)) (l : List α) :
    FailsWith P (l.mapM f) := by
  intro e failed
  obtain ⟨-, a, -, -, -, -, failed⟩ := mapM_eq_error.1 failed
  exact each a e failed

theorem foldlM {f : β → α → Except ε β} (each : ∀ b a, FailsWith P (f b a)) (l : List α) (b : β) :
    FailsWith P (l.foldlM f b) := by
  intro e failed
  obtain ⟨-, a, -, middle, -, -, failed⟩ := foldlM_eq_error.1 failed
  exact each middle a e failed

theorem forM {f : α → Except ε Unit} (each : ∀ a, FailsWith P (f a)) (l : List α) :
    FailsWith P (l.forM f) := by
  induction l with
  | nil => exact pure ()
  | cons a l ih => exact (each a).bind fun _ => ih

end FailsWith

/-! ## Answers that carry over -/

/-- What the one computation answers, the other answers as well.  Where the one fails, the other may
do anything. -/
def CarriesTo (x y : Except ε α) : Prop := ∀ a, x = .ok a → y = .ok a

namespace CarriesTo

theorem refl (x : Except ε α) : CarriesTo x x := fun _ h => h

theorem of_error (e : ε) (y : Except ε α) : CarriesTo (.error e) y := nofun

theorem bind {x y : Except ε α} {f g : α → Except ε β} (first : CarriesTo x y)
    (next : ∀ a, CarriesTo (f a) (g a)) : CarriesTo (x >>= f) (y >>= g) := by
  intro b h
  obtain ⟨a, hx, hf⟩ := bind_eq_ok.1 h
  exact bind_eq_ok.2 ⟨a, first a hx, next a b hf⟩

theorem bind_same {x y : Except ε α} (first : CarriesTo x y) (f : α → Except ε β) :
    CarriesTo (x >>= f) (y >>= f) :=
  first.bind fun a => refl (f a)

theorem guard {c : Prop} [Decidable c] {e : ε} {x y : Except ε α} (h : CarriesTo x y) :
    CarriesTo (if c then .error e else x) (if c then .error e else y) := by
  split
  · exact of_error e _
  · exact h

theorem mapM {f g : α → Except ε β} {l : List α} (each : ∀ a ∈ l, CarriesTo (f a) (g a)) :
    CarriesTo (l.mapM f) (l.mapM g) := by
  induction l with
  | nil => exact refl _
  | cons a l ih =>
    obtain ⟨first, rest⟩ := List.forall_mem_cons.1 each
    rw [List.mapM_cons, List.mapM_cons]
    exact first.bind fun b => (ih rest).bind_same fun bs => pure (b :: bs)

end CarriesTo

end ClassLang
