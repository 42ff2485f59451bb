/-
Tables filled by a pass over declarations that refuses a name met before.
-/
import ClassLang.Proofs.Except
import ClassLang.Table.Lemmas
import Mathlib.Data.List.Induction
import Mathlib.Tactic.Common

namespace ClassLang

/-- Among declarations of different names, each is found by its own. -/
theorem find?_of_mem {β ν : Type} [DecidableEq ν] {name : β → ν} {l : List β}
    (distinct : (l.map name).Nodup) {x : β} (mem : x ∈ l) :
    l.find? (name · = name x) = some x := by
  induction l with
  | nil => cases mem
  | cons y l ih =>
    rw [List.map_cons, List.nodup_cons] at distinct
    rcases List.mem_cons.1 mem with rfl | mem
    · exact List.find?_cons_of_pos (by simp)
    · have ne : name y ≠ name x := fun eq => distinct.1 (eq ▸ List.mem_map_of_mem mem)
      rw [List.find?_cons_of_neg (by simpa using ne)]
      exact ih distinct.2 mem

namespace Table

variable {α β : Type}

theorem contains_eq_false {t : Table α} {name : String} :
    t.contains name = false ↔ t.get? name = none := by
  unfold contains
  cases t.get? name <;> simp

theorem contains_eq_true {t : Table α} {name : String} :
    t.contains name = true ↔ ∃ value, t.get? name = some value := by
  unfold contains
  cases t.get? name <;> simp

/-- The table holds what a list declares: each name of the list once, with a value that its
declaration gives it, and no other name. -/
structure Filled (name : β → String) (gives : β → α → Prop) (l : List β) (t : Table α) : Prop where
  distinct : (l.map name).Nodup
  found : ∀ x ∈ l, ∃ value, gives x value ∧ t.get? (name x) = some value
  only : ∀ key value, t.get? key = some value → ∃ x ∈ l, name x = key ∧ gives x value

variable {name : β → String} {gives : β → α → Prop}

theorem filled_empty : Filled name gives [] (empty : Table α) where
  distinct := List.nodup_nil
  found := List.forall_mem_nil _
  only := fun _ _ h => nomatch h

theorem Filled.insert {l : List β} {t : Table α} (filled : Filled name gives l t) {x : β}
    {value : α} (new : t.get? (name x) = none) (given : gives x value) :
    Filled name gives (l ++ [x]) (t.insert (name x) value) where
  distinct := by
    rw [List.map_append, List.nodup_append]
    refine ⟨filled.distinct, List.pairwise_singleton _ _, ?_⟩
    rintro _ hy _ hx rfl
    obtain ⟨y, mem, eq⟩ := List.mem_map.1 hy
    obtain ⟨v, _, hv⟩ := filled.found y mem
    rw [eq, List.mem_singleton.1 hx, new] at hv
    cases hv
  found := by
    intro y mem
    rw [get?_insert]
    split
    · next eq =>
      rcases List.mem_append.1 mem with mem | mem
      · obtain ⟨v, _, hv⟩ := filled.found y mem
        rw [eq, new] at hv
        cases hv
      · exact ⟨value, List.mem_singleton.1 mem ▸ given, rfl⟩
    · next ne =>
      rcases List.mem_append.1 mem with mem | mem
      · exact filled.found y mem
      · exact absurd (congrArg name (List.mem_singleton.1 mem)) ne
  only := by
    intro key v h
    rw [get?_insert] at h
    split at h
    · next eq =>
      cases h
      exact ⟨x, List.mem_append_right _ (List.mem_singleton.2 rfl), eq.symm, given⟩
    · obtain ⟨y, mem, hy⟩ := filled.only key v h
      exact ⟨y, List.mem_append_left _ mem, hy⟩

theorem filled_of_foldlM {ε : Type} {step : Table α → β → Except ε (Table α)}
    (hstep : ∀ t x t', step t x = .ok t' →
      t.get? (name x) = none ∧ ∃ value, gives x value ∧ t' = t.insert (name x) value)
    {l : List β} {t : Table α} (h : l.foldlM step empty = .ok t) : Filled name gives l t := by
  -- what the pass has been over so far, and what it has filled from it
  suffices ∀ (rest done : List β) (t₀ : Table α), Filled name gives done t₀ →
      rest.foldlM step t₀ = .ok t → Filled name gives (done ++ rest) t from
    this l [] empty filled_empty h
  intro rest
  induction rest with
  | nil =>
    intro done t₀ filled h
    rw [List.foldlM_nil, pure_eq_ok] at h
    rwa [List.append_nil, ← h]
  | cons x rest ih =>
    intro done t₀ filled h
    rw [List.foldlM_cons, bind_eq_ok] at h
    obtain ⟨t₁, hx, h⟩ := h
    obtain ⟨new, value, given, rfl⟩ := hstep t₀ x t₁ hx
    rw [List.append_cons]
    exact ih _ _ (filled.insert new given) h

/-- A pass goes through whatever some table holds, and ends with that table. -/
theorem foldlM_of_filled {ε : Type} {step : Table α → β → Except ε (Table α)}
    (hstep : ∀ t x value, t.get? (name x) = none → gives x value →
      step t x = .ok (t.insert (name x) value))
    {l : List β} {t : Table α} (filled : Filled name gives l t) : l.foldlM step empty = .ok t := by
  -- on the way the table agrees with the last one on the names met so far and has no others
  suffices ∀ (rest done : List β) (t₀ : Table α), l = done ++ rest →
      (∀ key, t₀.get? key = if key ∈ done.map name then t.get? key else none) →
      rest.foldlM step t₀ = .ok t from
    this l [] empty rfl fun key => (if_neg List.not_mem_nil).symm
  intro rest
  induction rest with
  | nil =>
    intro done t₀ all agrees
    rw [List.append_nil] at all
    rw [List.foldlM_nil, pure_eq_ok]
    refine eq_of_get? fun key => ?_
    rw [agrees, ← all]
    split
    · rfl
    · next absent =>
      cases found : t.get? key with
      | none => rfl
      | some value =>
        obtain ⟨x, mem, rfl, -⟩ := filled.only key value found
        exact absurd (List.mem_map_of_mem mem) absent
  | cons x rest ih =>
    intro done t₀ all agrees
    have distinct := filled.distinct
    rw [all, List.map_append, List.nodup_append] at distinct
    have new : name x ∉ done.map name := fun mem =>
      distinct.2.2 _ mem _ (List.mem_map_of_mem List.mem_cons_self) rfl
    have mem : x ∈ l := all ▸ List.mem_append_right _ List.mem_cons_self
    obtain ⟨value, given, found⟩ := filled.found x mem
    rw [List.foldlM_cons, bind_eq_ok]
    refine ⟨_, hstep t₀ x value ((agrees _).trans (if_neg new)) given, ?_⟩
    refine ih (done ++ [x]) _ (by rw [all, List.append_cons]) fun key => ?_
    simp only [get?_insert, agrees, List.map_append, List.map_cons, List.map_nil, List.mem_append,
      List.mem_singleton]
    by_cases eq : key = name x
    · rw [if_pos eq, if_pos (Or.inr eq), eq, found]
    · simp only [eq, if_false, or_false]

theorem foldlM_eq_ok_iff {ε : Type} {step : Table α → β → Except ε (Table α)}
    (hstep : ∀ t x t', step t x = .ok t' ↔
      t.get? (name x) = none ∧ ∃ value, gives x value ∧ t.insert (name x) value = t')
    {l : List β} {t : Table α} : l.foldlM step empty = .ok t ↔ Filled name gives l t := by
  constructor
  · refine filled_of_foldlM fun t x t' passed => ?_
    obtain ⟨new, value, given, rfl⟩ := (hstep t x t').1 passed
    exact ⟨new, value, given, rfl⟩
  · exact foldlM_of_filled fun t x value new given => (hstep t x _).2 ⟨new, value, given, rfl⟩

/-- Where each declaration gives one value, if any, the answers of the table are known from the
list. -/
theorem filled_iff {P : β → Prop} {f : β → α} (one : ∀ x v, gives x v ↔ P x ∧ v = f x) {l : List β}
    {t : Table α} :
    Filled name gives l t ↔ (l.map name).Nodup ∧ (∀ x ∈ l, P x) ∧
      ∀ key value, t.get? key = some value ↔ ∃ x ∈ l, name x = key ∧ f x = value := by
  constructor
  · intro filled
    have each : ∀ x ∈ l, P x ∧ t.get? (name x) = some (f x) := fun x mem => by
      obtain ⟨value, given, found⟩ := filled.found x mem
      obtain ⟨holds, rfl⟩ := (one x value).1 given
      exact ⟨holds, found⟩
    refine ⟨filled.distinct, fun x mem => (each x mem).1, fun key value => ⟨fun h => ?_, ?_⟩⟩
    · obtain ⟨x, mem, named, given⟩ := filled.only key value h
      exact ⟨x, mem, named, ((one x value).1 given).2.symm⟩
    · rintro ⟨x, mem, rfl, rfl⟩
      exact (each x mem).2
  · rintro ⟨distinct, holds, answers⟩
    refine ⟨distinct, fun x mem => ?_, fun key value h => ?_⟩
    · exact ⟨f x, (one x _).2 ⟨holds x mem, rfl⟩, (answers _ _).2 ⟨x, mem, rfl, rfl⟩⟩
    · obtain ⟨x, mem, named, rfl⟩ := (answers key value).1 h
      exact ⟨x, mem, named, (one x _).2 ⟨holds x mem, rfl⟩⟩

theorem Filled.get?_eq_none_iff {l : List β} {t : Table α} (filled : Filled name gives l t)
    {key : String} : t.get? key = none ↔ ∀ x ∈ l, key ≠ name x := by
  constructor
  · rintro absent x mem rfl
    obtain ⟨value, -, found⟩ := filled.found x mem
    rw [absent] at found
    cases found
  · intro other
    cases found : t.get? key with
    | none => rfl
    | some value =>
      obtain ⟨x, mem, named, -⟩ := filled.only key value found
      exact absurd named.symm (other x mem)

/-- In which order a list declares its names does not count. -/
theorem Filled.perm {l l' : List β} {t : Table α} (filled : Filled name gives l t)
    (same : l.Perm l') : Filled name gives l' t where
  distinct := (same.map name).nodup_iff.1 filled.distinct
  found := fun x mem => filled.found x (same.mem_iff.2 mem)
  only := fun key value h => by
    obtain ⟨x, mem, declared⟩ := filled.only key value h
    exact ⟨x, same.mem_iff.1 mem, declared⟩

/-- Another list of the same names declares the same table if it gives the same values. -/
theorem Filled.transfer {γ : Type} {name' : γ → String} {gives' : γ → α → Prop} {l : List β}
    {l' : List γ} {t : Table α} (filled : Filled name gives l t)
    (alike : List.Forall₂ (fun x y => name' y = name x ∧ ∀ v, gives x v → gives' y v) l l') :
    Filled name' gives' l' t := by
  have names : l'.map name' = l.map name := map_eq_of_forall₂ alike fun _ _ _ h => h.1
  refine ⟨names ▸ filled.distinct, fun y mem => ?_, fun key value h => ?_⟩
  · obtain ⟨x, hx, same, given⟩ := exists_left_of_forall₂ alike mem
    obtain ⟨v, hv, found⟩ := filled.found x hx
    exact ⟨v, given v hv, same ▸ found⟩
  · obtain ⟨x, hx, eq, hv⟩ := filled.only key value h
    obtain ⟨y, hy, same, given⟩ := exists_right_of_forall₂ alike hx
    exact ⟨y, hy, same.trans eq, given value hv⟩

theorem Filled.imp {gives' : β → α → Prop} {l : List β} {t : Table α}
    (filled : Filled name gives l t) (weaker : ∀ x v, gives x v → gives' x v) :
    Filled name gives' l t :=
  filled.transfer (List.forall₂_same.2 fun x _ => ⟨rfl, weaker x⟩)

/-! ## More declarations -/

/-- Everything that the one table holds, the other holds too. -/
def Within (t u : Table α) : Prop := ∀ key value, t.get? key = some value → u.get? key = some value

/-- Different names, and a value for each of them, are all it takes to fill a table. -/
theorem exists_filled_iff {l : List β} :
    (∃ t, Filled name gives l t) ↔ (l.map name).Nodup ∧ ∀ x ∈ l, ∃ value, gives x value := by
  constructor
  · rintro ⟨t, filled⟩
    refine ⟨filled.distinct, fun x mem => ?_⟩
    obtain ⟨value, given, -⟩ := filled.found x mem
    exact ⟨value, given⟩
  · rintro ⟨distinct, given⟩
    induction l using List.reverseRecOn with
    | nil => exact ⟨empty, filled_empty⟩
    | append_singleton l x ih =>
      rw [List.map_append, List.nodup_append] at distinct
      obtain ⟨front, last⟩ := List.forall_mem_append.1 given
      obtain ⟨t, filled⟩ := ih distinct.1 front
      obtain ⟨value, first⟩ := last x List.mem_cons_self
      have new : t.get? (name x) = none := by
        cases found : t.get? (name x) with
        | none => rfl
        | some old =>
          obtain ⟨y, mem, same, -⟩ := filled.only _ old found
          exact absurd same (distinct.2.2 _ (List.mem_map_of_mem mem) _ List.mem_cons_self)
      exact ⟨_, filled.insert new first⟩

/-- Where a declaration gives one value only, more declarations change nothing about it. -/
theorem Filled.within {l l' : List β} {t u : Table α} (filled : Filled name gives l t)
    (filled' : Filled name gives l' u) (sub : l ⊆ l')
    (one : ∀ x value value', gives x value → gives x value' → value = value') : t.Within u := by
  intro key value found
  obtain ⟨x, mem, rfl, given⟩ := filled.only key value found
  obtain ⟨value', given', found'⟩ := filled'.found x (sub mem)
  rw [found', one x value value' given given']

/-! ## Tables filled from lists of entries -/

/-- Puts entries into a table, one after the other. -/
def insertAll (t : Table α) (l : List (String × α)) : Table α :=
  l.foldl (fun t entry => t.insert entry.1 entry.2) t

theorem insertAll_cons (t : Table α) (entry : String × α) (l : List (String × α)) :
    t.insertAll (entry :: l) = (t.insert entry.1 entry.2).insertAll l := rfl

theorem get?_insertAll_of_not_mem {t : Table α} {l : List (String × α)} {key : String}
    (notIn : key ∉ l.map Prod.fst) : (t.insertAll l).get? key = t.get? key := by
  induction l generalizing t with
  | nil => rfl
  | cons entry l ih =>
    rw [List.map_cons, List.mem_cons, not_or] at notIn
    rw [insertAll_cons, ih notIn.2, get?_insert, if_neg notIn.1]

theorem get?_insertAll_of_mem {t : Table α} {l : List (String × α)}
    (distinct : (l.map Prod.fst).Nodup) {key : String} {value : α} (mem : (key, value) ∈ l) :
    (t.insertAll l).get? key = some value := by
  induction l generalizing t with
  | nil => cases mem
  | cons entry l ih =>
    rw [List.map_cons, List.nodup_cons] at distinct
    rw [insertAll_cons]
    rcases List.mem_cons.1 mem with rfl | mem
    · rw [get?_insertAll_of_not_mem distinct.1, get?_insert, if_pos rfl]
    · exact ih distinct.2 mem

end Table

end ClassLang
