/-
What code generation needs of a scope, and that the scopes of a checked program give it.

The generator makes its scopes anew, from the laid-out scope of the outermost level; they are the
scopes in which the bodies were checked.
-/
import ClassLang.Proofs.Lowering.Builtins
import ClassLang.Proofs.Lowering.Layouts

namespace ClassLang

/-- A layout with a place for every field. -/
def ClassInfo.LaidOut (info : ClassInfo) : Prop :=
  ∃ layout, info.layout = some layout ∧
    ∀ field ty, info.fields.get? field = some ty → ∃ offset, layout.offset? field = some offset

namespace Scope

structure Ready (scope : Scope) : Prop where
  concrete : scope.Concrete
  laidOut : ∀ cls info, scope.classes.get? cls = some info → info.LaidOut

theorem Ready.enterClass {scope : Scope} (ready : scope.Ready) (cls : String) :
    (scope.enterClass cls).Ready where
  concrete := ready.concrete.enterClass cls
  laidOut := ready.laidOut

theorem Ready.enterMethod {outer inner : Scope} (ready : outer.Ready) {ret : Ty} {own : List Param}
    (enters : outer.Enters inner ret own) (own_ne : ∀ p ∈ own, p.ty ≠ .any) : inner.Ready where
  concrete := ready.concrete.enterMethod enters own_ne
  laidOut := enters.classes ▸ ready.laidOut

end Scope

theorem Layout.offset?_of_mem {layout : Layout} {field : String} (mem : field ∈ layout.fields) :
    ∃ offset, layout.offset? field = some offset := by
  obtain ⟨index, found⟩ := Option.isSome_iff_exists.1 (List.isSome_idxOf?.2 mem)
  exact ⟨_, by rw [offset?, found]; rfl⟩

namespace Typed

theorem Method.Shows.ret_ne_any {cls : String} {m : Method} {signature : Signature}
    (shows : m.Shows cls signature) (ret : m.ret ≠ .any) : signature.ret ≠ .any := by
  obtain ⟨rest, -, ⟨-, -, -, rfl⟩ | ⟨-, rfl⟩⟩ := shows
  · exact nofun
  · exact ret

theorem Class.Checked.info_concrete {scope : Scope} {c : Class} {info : ClassInfo}
    (checked : c.Checked scope) (shows : c.Shows info) : info.Concrete where
  fields := fun field ty found => by
    obtain ⟨v, mem, -, rfl⟩ := shows.fields.only field ty found
    exact (checked.fields v mem).declared.1
  methods := fun method signature found => by
    obtain ⟨m, mem, -, shown⟩ := shows.methods.only method signature found
    obtain ⟨inner, hm⟩ := checked.methods m mem
    exact shown.ret_ne_any hm.ret.1

theorem Class.Shows.laidOut {c : Class} {info : ClassInfo} (shows : c.Shows info)
    (layout : info.layout = some c.layout) : info.LaidOut := by
  refine ⟨c.layout, layout, fun field ty found => ?_⟩
  obtain ⟨v, mem, rfl, -⟩ := shows.fields.only field ty found
  exact Layout.offset?_of_mem (List.mem_map_of_mem mem)

theorem Program.Checked.concrete {p : Program} {scope : Scope} (checked : p.Checked scope) :
    scope.Concrete where
  functions := checked.functions
  vars := fun name binding found => by
    obtain ⟨v, mem, -, rfl⟩ := checked.vars.only name binding found
    exact (checked.globals v mem).declared.1
  classes := fun cls info found => by
    obtain ⟨c, mem, rfl, shows⟩ := checked.classes.only cls info found
    exact (checked.bodies c mem).info_concrete shows

theorem Program.Checked.ready {p : Program} {scope : Scope} (checked : p.Checked scope)
    (lays : scope.LaysOut p.classes) : scope.Ready where
  concrete := checked.concrete
  laidOut := fun cls info found => by
    obtain ⟨c, mem, rfl, shows⟩ := checked.classes.only cls info found
    obtain ⟨info', found', layout⟩ := lays c mem
    cases found.symm.trans found'
    exact shows.laidOut layout

theorem Method.Checked.variables_ne_any {scope inner : Scope} {m : Method}
    (checked : m.Checked scope inner) {p : Param} (mem : p ∈ m.variables) : p.ty ≠ .any := by
  rcases List.mem_append.1 mem with mem | mem
  · exact (checked.params p mem).1
  · obtain ⟨v, hv, rfl⟩ := List.mem_map.1 mem
    exact (checked.definitions v hv).declared.1

theorem Method.Checked.ready {scope inner : Scope} {m : Method} (checked : m.Checked scope inner)
    (ready : scope.Ready) : inner.Ready :=
  ready.enterMethod (Scope.enterMethod_enters checked.enters) fun _ mem =>
    checked.variables_ne_any mem

theorem Method.Checked.inMethod {scope inner : Scope} {m : Method}
    (checked : m.Checked scope inner) : inner.inMethod = scope.inMethod := by
  rw [Scope.inMethod, (Scope.enterMethod_enters checked.enters).owner, Scope.inMethod]

end Typed
end ClassLang
