/-
Finite maps from names.

The entries are kept in ascending order of their names, so two tables that answer every look-up
alike are equal, whatever the order in which they were filled.
-/

namespace ClassLang

/-- Puts an entry at its place in an ordered list, over an entry of the same name. -/
def placeEntry {α : Type} (name : String) (value : α) : List (String × α) → List (String × α)
  | [] => [(name, value)]
  | entry :: rest =>
    if name < entry.1 then (name, value) :: entry :: rest
    else if name = entry.1 then (name, value) :: rest
    else entry :: placeEntry name value rest

theorem mem_placeEntry {α : Type} {name : String} {value : α} {entry : String × α}
    {l : List (String × α)} (h : entry ∈ placeEntry name value l) :
    entry = (name, value) ∨ entry ∈ l := by
  induction l with
  | nil => exact Or.inl (List.mem_singleton.1 h)
  | cons head rest ih =>
    unfold placeEntry at h
    split at h
    · exact (List.mem_cons.1 h).imp_right id
    · split at h
      · exact (List.mem_cons.1 h).imp_right (List.mem_cons_of_mem head)
      · rcases List.mem_cons.1 h with rfl | h
        · exact Or.inr List.mem_cons_self
        · exact (ih h).imp_right (List.mem_cons_of_mem head)

theorem placeEntry_pairwise {α : Type} (name : String) (value : α) {l : List (String × α)}
    (h : l.Pairwise (·.1 < ·.1)) : (placeEntry name value l).Pairwise (·.1 < ·.1) := by
  induction l with
  | nil => exact List.pairwise_singleton _ _
  | cons head rest ih =>
    obtain ⟨below, ordered⟩ := List.pairwise_cons.1 h
    unfold placeEntry
    split
    · next lt =>
      refine List.pairwise_cons.2 ⟨fun entry mem => ?_, h⟩
      rcases List.mem_cons.1 mem with rfl | mem
      · exact lt
      · exact String.lt_trans lt (below entry mem)
    · next notLt =>
      split
      · next eq => exact List.pairwise_cons.2 ⟨fun entry mem => eq ▸ below entry mem, ordered⟩
      · next ne =>
        refine List.pairwise_cons.2 ⟨fun entry mem => ?_, ih ordered⟩
        rcases mem_placeEntry mem with rfl | mem
        · exact Decidable.byContradiction fun notGt =>
            ne (String.le_antisymm (String.not_lt.1 notGt) (String.not_lt.1 notLt))
        · exact below entry mem

structure Table (α : Type) where
  entries : List (String × α)
  ordered : entries.Pairwise (·.1 < ·.1)
deriving DecidableEq

namespace Table

variable {α : Type}

def empty : Table α := ⟨[], List.Pairwise.nil⟩

def get? (t : Table α) (name : String) : Option α := t.entries.lookup name

def contains (t : Table α) (name : String) : Bool := (t.get? name).isSome

def insert (t : Table α) (name : String) (value : α) : Table α :=
  ⟨placeEntry name value t.entries, placeEntry_pairwise name value t.ordered⟩

/-- Later entries go over earlier ones of the same name. -/
def ofList (l : List (String × α)) : Table α :=
  l.foldl (fun t entry => t.insert entry.1 entry.2) empty

def map {β : Type} (f : α → β) (t : Table α) : Table β :=
  ⟨t.entries.map fun entry => (entry.1, f entry.2),
    List.pairwise_map.2 t.ordered⟩

end Table

end ClassLang
