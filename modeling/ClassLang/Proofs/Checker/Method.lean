/-
The scope of a method: what its own names stand for, and that nothing else of the scope counts for
entering it.
-/
import ClassLang.Proofs.Table
import ClassLang.Scope

namespace ClassLang
namespace Scope

/-- The bindings of a scope that binds some names of its own above those of another. -/
def overlay (vars : Table Binding) (own : List Param) (name : String) : Option Binding :=
  match own.find? (·.name = name) with
  | some p => some { ty := p.ty, assignable := true }
  | none => vars.get? name

theorem overlay_of_mem {vars : Table Binding} {own : List Param}
    (distinct : (own.map Param.name).Nodup) {p : Param} (mem : p ∈ own) :
    overlay vars own p.name = some { ty := p.ty, assignable := true } := by
  rw [overlay, find?_of_mem distinct mem]

theorem overlay_of_not_mem {vars : Table Binding} {own : List Param} {name : String}
    (notOwn : name ∉ own.map Param.name) : overlay vars own name = vars.get? name := by
  have found : own.find? (·.name = name) = none := by
    rw [List.find?_eq_none]
    intro p mem
    rw [decide_eq_true_eq]
    exact fun eq => notOwn (eq ▸ List.mem_map_of_mem mem)
  rw [overlay, found]

theorem bind_eq_ok_iff {what : String} {scope inner : Scope} {p : Param} :
    bind what scope p = .ok inner ↔
      (scope.vars.get? p.name).any (·.assignable) = false ∧
        inner = { scope with
          vars := scope.vars.insert p.name { ty := p.ty, assignable := true } } := by
  unfold bind
  split
  · next taken => simp [taken]
  · next free =>
    rw [Bool.not_eq_true] at free
    rw [Except.ok.injEq]
    exact ⟨fun h => ⟨free, h.symm⟩, fun h => h.2.symm⟩

/-- Binding name after name overlays them, if no two are the same. -/
theorem foldlM_bind_eq_ok {what : String} {ps : List Param} {scope inner : Scope}
    (h : ps.foldlM (bind what) scope = .ok inner) :
    inner = { scope with vars := inner.vars } ∧ (ps.map Param.name).Nodup ∧
      (∀ p ∈ ps, (scope.vars.get? p.name).any (·.assignable) = false) ∧
      ∀ name, inner.vars.get? name = overlay scope.vars ps name := by
  induction ps generalizing scope with
  | nil =>
    cases h
    exact ⟨rfl, List.nodup_nil, List.forall_mem_nil _, fun _ => rfl⟩
  | cons p ps ih =>
    rw [List.foldlM_cons, bind_eq_ok] at h
    obtain ⟨next, hp, h⟩ := h
    obtain ⟨free, rfl⟩ := bind_eq_ok_iff.1 hp
    obtain ⟨same, distinct, frees, vars⟩ := ih h
    have new : p.name ∉ ps.map Param.name := by
      intro mem
      obtain ⟨q, hq, eq⟩ := List.mem_map.1 mem
      have taken := frees q hq
      rw [Table.get?_insert, if_pos eq] at taken
      cases taken
    refine ⟨same, List.nodup_cons.2 ⟨new, distinct⟩, ?_, ?_⟩
    · intro q hq
      rcases List.mem_cons.1 hq with rfl | hq
      · exact free
      · have taken := frees q hq
        have ne : q.name ≠ p.name := fun eq => new (eq ▸ List.mem_map_of_mem hq)
        rwa [Table.get?_insert, if_neg ne] at taken
    · intro name
      rw [vars]
      by_cases eq : p.name = name
      · subst eq
        rw [overlay_of_not_mem new, Table.get?_insert, if_pos rfl, overlay,
          List.find?_cons_of_pos (by simp)]
      · have rest : ∀ t : Table Binding, overlay t (p :: ps) name = overlay t ps name := fun t => by
          rw [overlay, List.find?_cons_of_neg (by simpa using eq)]
          rfl
        rw [rest, overlay, overlay, Table.get?_insert, if_neg fun e => eq e.symm]

/-- Whether names can be bound depends on the names bound before alone. -/
theorem foldlM_bind_congr {what : String} {ps : List Param} {scope inner other : Scope}
    (vars : other.vars = scope.vars) (h : ps.foldlM (bind what) scope = .ok inner) :
    ps.foldlM (bind what) other = .ok { other with vars := inner.vars } := by
  induction ps generalizing scope other with
  | nil =>
    cases h
    rw [← vars]
    rfl
  | cons p ps ih =>
    rw [List.foldlM_cons, bind_eq_ok] at h ⊢
    obtain ⟨next, hp, h⟩ := h
    obtain ⟨free, rfl⟩ := bind_eq_ok_iff.1 hp
    refine ⟨_, bind_eq_ok_iff.2 ⟨vars ▸ free, rfl⟩, ?_⟩
    exact ih (vars ▸ rfl) h

/-- What entering a method does to a scope. -/
structure Enters (outer inner : Scope) (ret : Ty) (own : List Param) : Prop where
  distinct : (own.map Param.name).Nodup
  vars : ∀ name, inner.vars.get? name = overlay outer.vars own name
  classes : inner.classes = outer.classes
  functions : inner.functions = outer.functions
  returns : inner.returns = ret
  owner : inner.owner = outer.owner

theorem enterMethod_enters {outer inner : Scope} {ret : Ty} {params locals : List Param}
    (h : outer.enterMethod ret params locals = .ok inner) :
    outer.Enters inner ret (params ++ locals) := by
  unfold enterMethod at h
  rw [bind_eq_ok] at h
  obtain ⟨middle, hp, hl⟩ := h
  obtain ⟨same, distinct, -, vars⟩ := foldlM_bind_eq_ok hp
  obtain ⟨same', distinct', frees, vars'⟩ := foldlM_bind_eq_ok hl
  have apart : ∀ p ∈ params, ∀ q ∈ locals, p.name ≠ q.name := by
    intro p hp q hq eq
    have taken := frees q hq
    rw [vars, ← eq, overlay_of_mem distinct hp] at taken
    cases taken
  refine ⟨?_, fun name => ?_, ?_, ?_, ?_, ?_⟩
  · rw [List.map_append, List.nodup_append]
    refine ⟨distinct, distinct', ?_⟩
    intro _ mem _ mem' eq
    obtain ⟨p, memp, hp⟩ := List.mem_map.1 mem
    obtain ⟨q, memq, hq⟩ := List.mem_map.1 mem'
    exact apart p memp q memq (hp.trans (eq.trans hq.symm))
  · rw [vars', overlay, overlay, List.find?_append]
    cases hp : params.find? (·.name = name) with
    | none =>
      rw [Option.none_or, vars, overlay, hp]
    | some p =>
      have mem := List.mem_of_find?_eq_some hp
      have eq : p.name = name := by simpa using List.find?_some hp
      have notLocal : locals.find? (·.name = name) = none := by
        rw [List.find?_eq_none]
        intro q hq
        rw [decide_eq_true_eq]
        exact fun e => apart p mem q hq (eq.trans e.symm)
      rw [notLocal, Option.some_or, vars, overlay, hp]
  · rw [same', same]
  · rw [same', same]
  · rw [same', same]
  · rw [same', same]

theorem enterMethod_congr {outer inner other : Scope} {ret : Ty} {params locals : List Param}
    (vars : other.vars = outer.vars) (h : outer.enterMethod ret params locals = .ok inner) :
    other.enterMethod ret params locals =
      .ok { other with vars := inner.vars, returns := ret } := by
  unfold enterMethod at h ⊢
  rw [bind_eq_ok] at h ⊢
  obtain ⟨middle, hp, hl⟩ := h
  have start : ({ other with returns := ret } : Scope).vars =
      ({ outer with returns := ret } : Scope).vars := vars
  have between : ({ other with vars := middle.vars, returns := ret } : Scope).vars =
      middle.vars := rfl
  exact ⟨_, foldlM_bind_congr start hp, foldlM_bind_congr between hl⟩

end Scope
end ClassLang
