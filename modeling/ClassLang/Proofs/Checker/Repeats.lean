/-
Names that a method declares twice.

Inside a class no name can be assigned before a method binds its own, so a method can be entered
exactly if its parameters and locals have different names, and otherwise the first of them that
repeats an earlier one is named.
-/
import ClassLang.Proofs.Checker.Method

namespace ClassLang
namespace Scope

/-- A name that a method declares, with the word that messages have for its kind. -/
structure Declaration where
  what : String
  param : Param
deriving Repr, DecidableEq

namespace Declaration

def name (d : Declaration) : String := d.param.name

/-- The names of a method in the order in which it binds them. -/
def list (params locals : List Param) : List Declaration :=
  params.map (⟨"parameter", ·⟩) ++ locals.map (⟨"variable", ·⟩)

theorem list_names (params locals : List Param) :
    (list params locals).map name = (params ++ locals).map Param.name := by
  rw [list, List.map_append, List.map_append, List.map_map, List.map_map]
  rfl

def bind (scope : Scope) (d : Declaration) : Except Error Scope := Scope.bind d.what scope d.param

/-- The first declaration of a name that has been declared before. -/
def FirstRepeat (d : Declaration) (ds : List Declaration) : Prop :=
  ∃ before after, ds = before ++ d :: after ∧ (before.map name).Nodup ∧ d.name ∈ before.map name

theorem FirstRepeat.not_nodup {d : Declaration} {ds : List Declaration} (h : d.FirstRepeat ds) :
    ¬(ds.map name).Nodup := by
  obtain ⟨before, after, rfl, -, mem⟩ := h
  rw [List.map_append, List.map_cons, List.nodup_append]
  exact fun distinct => distinct.2.2 _ mem _ List.mem_cons_self rfl

end Declaration

/-- Whether the innermost scope has bound the name. -/
def binds (scope : Scope) (name : String) : Bool := (scope.vars.get? name).any (·.assignable)

theorem Declaration.binds_of_ok {scope inner : Scope} {d : Declaration}
    (h : d.bind scope = .ok inner) :
    scope.binds d.name = false ∧
      ∀ name, inner.binds name = (decide (name = d.name) || scope.binds name) := by
  obtain ⟨free, rfl⟩ := bind_eq_ok_iff.1 h
  refine ⟨free, fun name => ?_⟩
  by_cases eq : name = d.name
  · simp [binds, Table.get?_insert, eq, Declaration.name]
  · have ne : ¬name = d.param.name := eq
    simp [binds, Table.get?_insert, eq, ne]

theorem Declaration.bind_eq_error {scope : Scope} {d : Declaration} {e : Error} :
    d.bind scope = .error e ↔
      scope.binds d.name = true ∧ e = .duplicateDefinition d.what d.name none := by
  unfold Declaration.bind Scope.bind
  split
  · next taken => exact ⟨fun h => ⟨taken, (Except.error.inj h).symm⟩, fun h => by rw [h.2]; rfl⟩
  · next free => exact ⟨nofun, fun h => absurd h.1 free⟩

theorem foldlM_bind_ok {ds : List Declaration} {scope inner : Scope}
    (h : ds.foldlM (fun scope d => d.bind scope) scope = .ok inner) :
    (ds.map Declaration.name).Nodup ∧ (∀ d ∈ ds, scope.binds d.name = false) ∧
      ∀ name, inner.binds name = (decide (name ∈ ds.map Declaration.name) || scope.binds name) := by
  induction ds generalizing scope with
  | nil =>
    cases h
    exact ⟨List.nodup_nil, List.forall_mem_nil _, fun name => by simp⟩
  | cons d ds ih =>
    rw [List.foldlM_cons, bind_eq_ok] at h
    obtain ⟨next, first, h⟩ := h
    obtain ⟨free, step⟩ := Declaration.binds_of_ok first
    obtain ⟨distinct, others, binds⟩ := ih h
    have apart : ∀ d' ∈ ds, d'.name ≠ d.name ∧ scope.binds d'.name = false := by
      intro d' mem
      have unbound := others d' mem
      rw [step, Bool.or_eq_false_iff, decide_eq_false_iff_not] at unbound
      exact unbound
    refine ⟨List.nodup_cons.2 ⟨fun mem => ?_, distinct⟩, ?_, fun name => ?_⟩
    · obtain ⟨d', mem, eq⟩ := List.mem_map.1 mem
      exact (apart d' mem).1 eq
    · exact List.forall_mem_cons.2 ⟨free, fun d' mem => (apart d' mem).2⟩
    · rw [binds, step, ← Bool.or_assoc, ← Bool.decide_or, List.map_cons]
      simp only [List.mem_cons, or_comm]

/-- Names that the scope has not bound can be bound in it if they are different. -/
theorem exists_foldlM_bind {ds : List Declaration} {scope : Scope}
    (distinct : (ds.map Declaration.name).Nodup) (free : ∀ d ∈ ds, scope.binds d.name = false) :
    ∃ inner, ds.foldlM (fun scope d => d.bind scope) scope = .ok inner := by
  induction ds generalizing scope with
  | nil => exact ⟨scope, rfl⟩
  | cons d ds ih =>
    obtain ⟨new, distinct⟩ := List.nodup_cons.1 distinct
    obtain ⟨first, others⟩ := List.forall_mem_cons.1 free
    have step : d.bind scope = .ok _ := bind_eq_ok_iff.2 ⟨first, rfl⟩
    obtain ⟨inner, pass⟩ := ih distinct fun d' mem => by
      have ne : d'.name ≠ d.name := fun eq => new (eq ▸ List.mem_map_of_mem mem)
      rw [(Declaration.binds_of_ok step).2, others d' mem, decide_eq_false ne]
      rfl
    refine ⟨inner, ?_⟩
    rw [List.foldlM_cons, bind_eq_ok]
    exact ⟨_, step, pass⟩

theorem enterMethod_eq_foldlM (outer : Scope) (ret : Ty) (params locals : List Param) :
    outer.enterMethod ret params locals =
      (Declaration.list params locals).foldlM (fun scope d => d.bind scope)
        { outer with returns := ret } := by
  simp only [Declaration.list, List.foldlM_append, List.foldlM_map]
  rfl

/-- A scope in which no name can be assigned. -/
def ReadOnly (scope : Scope) : Prop := ∀ name, scope.binds name = false

theorem enterClass_readOnly (scope : Scope) (cls : String) : (scope.enterClass cls).ReadOnly := by
  intro name
  simp only [binds, enterClass, Table.get?_map, Option.any_map]
  cases scope.vars.get? name <;> rfl

variable {outer : Scope} {ret : Ty} {params locals : List Param}

theorem exists_enterMethod (readOnly : outer.ReadOnly)
    (distinct : ((params ++ locals).map Param.name).Nodup) :
    ∃ inner, outer.enterMethod ret params locals = .ok inner := by
  rw [enterMethod_eq_foldlM]
  exact exists_foldlM_bind (Declaration.list_names params locals ▸ distinct) fun d _ =>
    readOnly d.name

theorem enterMethod_eq_error (readOnly : outer.ReadOnly) {e : Error} :
    outer.enterMethod ret params locals = .error e ↔
      ∃ d : Declaration, d.FirstRepeat (Declaration.list params locals) ∧
        e = .duplicateDefinition d.what d.name none := by
  have start (name : String) : Scope.binds { outer with returns := ret } name = false :=
    readOnly name
  rw [enterMethod_eq_foldlM, foldlM_eq_error]
  constructor
  · rintro ⟨before, d, after, middle, all, passed, failed⟩
    obtain ⟨taken, rfl⟩ := Declaration.bind_eq_error.1 failed
    obtain ⟨distinct, -, binds⟩ := foldlM_bind_ok passed
    rw [binds, start, Bool.or_false, decide_eq_true_eq] at taken
    exact ⟨d, ⟨before, after, all, distinct, taken⟩, rfl⟩
  · rintro ⟨d, ⟨before, after, all, distinct, mem⟩, rfl⟩
    obtain ⟨middle, passed⟩ := exists_foldlM_bind distinct fun d _ => start d.name
    refine ⟨before, d, after, middle, all, passed, Declaration.bind_eq_error.2 ⟨?_, rfl⟩⟩
    rw [(foldlM_bind_ok passed).2.2, start, Bool.or_false, decide_eq_true_eq]
    exact mem

end Scope
end ClassLang
