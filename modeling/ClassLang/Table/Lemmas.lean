/-
What look-ups answer after each operation on a table, and that nothing else tells tables apart.
-/
import ClassLang.Table

namespace ClassLang

theorem lookup_cons_eq_ite {α : Type} (entry : String × α) (l : List (String × α)) (name : String) :
    (entry :: l).lookup name = if name = entry.1 then some entry.2 else l.lookup name := by
  rw [List.lookup_cons]
  by_cases eq : name = entry.1
  · rw [if_pos eq, beq_iff_eq.2 eq]
  · rw [if_neg eq, beq_false_of_ne eq]

/-- A name below all others is not there. -/
theorem lookup_eq_none_of_lt {α : Type} {name : String} {l : List (String × α)}
    (below : ∀ entry ∈ l, name < entry.1) : l.lookup name = none := by
  induction l with
  | nil => rfl
  | cons head rest ih =>
    have ne : ¬name = head.1 := fun eq => String.lt_irrefl _ (eq ▸ below head List.mem_cons_self)
    rw [lookup_cons_eq_ite, if_neg ne]
    exact ih fun entry mem => below entry (List.mem_cons_of_mem head mem)

theorem lookup_placeEntry {α : Type} (name : String) (value : α) (l : List (String × α))
    (key : String) :
    (placeEntry name value l).lookup key = if key = name then some value else l.lookup key := by
  induction l with
  | nil => exact lookup_cons_eq_ite (name, value) [] key
  | cons head rest ih =>
    unfold placeEntry
    split
    · exact lookup_cons_eq_ite (name, value) (head :: rest) key
    · split
      · next eq =>
        rw [lookup_cons_eq_ite, lookup_cons_eq_ite, ← eq]
        split <;> rfl
      · next ne =>
        rw [lookup_cons_eq_ite, lookup_cons_eq_ite, ih]
        by_cases eq : key = head.1
        · rw [if_pos eq, if_pos eq, if_neg fun h => ne (h.symm.trans eq)]
        · rw [if_neg eq, if_neg eq]

/-- Of two ordered lists that answer alike, neither starts below the other. -/
theorem head_le_of_lookup {α : Type} {head : String × α} {l r : List (String × α)}
    {other : String × α} (below : ∀ entry ∈ r, other.1 < entry.1)
    (h : ∀ name, (head :: l).lookup name = (other :: r).lookup name) : other.1 ≤ head.1 := by
  refine String.not_lt.1 fun lt => ?_
  have absent : (other :: r).lookup head.1 = none :=
    lookup_eq_none_of_lt fun entry mem => by
      rcases List.mem_cons.1 mem with rfl | mem
      · exact lt
      · exact String.lt_trans lt (below entry mem)
  rw [← h, lookup_cons_eq_ite, if_pos rfl] at absent
  cases absent

theorem eq_of_lookup {α : Type} {l r : List (String × α)} (hl : l.Pairwise (·.1 < ·.1))
    (hr : r.Pairwise (·.1 < ·.1)) (h : ∀ name, l.lookup name = r.lookup name) : l = r := by
  induction l generalizing r with
  | nil =>
    cases r with
    | nil => rfl
    | cons head rest =>
      have found := h head.1
      rw [lookup_cons_eq_ite, if_pos rfl] at found
      cases found
  | cons head rest ih =>
    cases r with
    | nil =>
      have found := h head.1
      rw [lookup_cons_eq_ite, if_pos rfl] at found
      cases found
    | cons other rest' =>
      obtain ⟨below, ordered⟩ := List.pairwise_cons.1 hl
      obtain ⟨below', ordered'⟩ := List.pairwise_cons.1 hr
      have name_eq : head.1 = other.1 :=
        String.le_antisymm (head_le_of_lookup below fun name => (h name).symm)
          (head_le_of_lookup below' h)
      have value_eq : some head.2 = some other.2 := by
        have found := h head.1
        rwa [lookup_cons_eq_ite, lookup_cons_eq_ite, if_pos rfl, if_pos name_eq] at found
      have head_eq : head = other := Prod.ext name_eq (Option.some.inj value_eq)
      subst head_eq
      refine congrArg (head :: ·) (ih ordered ordered' fun name => ?_)
      by_cases eq : name = head.1
      · rw [eq, lookup_eq_none_of_lt below, lookup_eq_none_of_lt below']
      · have found := h name
        rwa [lookup_cons_eq_ite, lookup_cons_eq_ite, if_neg eq, if_neg eq] at found

namespace Table

variable {α : Type}

theorem get?_empty (name : String) : (empty : Table α).get? name = none := rfl

theorem get?_insert (t : Table α) (name : String) (value : α) (key : String) :
    (t.insert name value).get? key = if key = name then some value else t.get? key :=
  lookup_placeEntry name value t.entries key

theorem get?_map {β : Type} (f : α → β) (t : Table α) (name : String) :
    (t.map f).get? name = (t.get? name).map f := by
  show (t.entries.map fun entry => (entry.1, f entry.2)).lookup name = (t.entries.lookup name).map f
  induction t.entries with
  | nil => rfl
  | cons head rest ih =>
    simp only [List.map_cons, lookup_cons_eq_ite, ih]
    split <;> rfl

/-- Tables are told apart by their answers alone. -/
theorem eq_of_get? {t u : Table α} (h : ∀ name, t.get? name = u.get? name) : t = u := by
  have entries_eq := eq_of_lookup t.ordered u.ordered h
  cases t
  cases u
  cases entries_eq
  rfl

end Table

end ClassLang
