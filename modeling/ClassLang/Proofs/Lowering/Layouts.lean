/-
Laying out the classes of a checked program.

Layouts are all that the pass adds to a scope.  The rules of the checker never look at them, so
whatever is checked before the pass is checked after it.
-/
import ClassLang.Proofs.Checker.Program
import ClassLang.Scope.Layouts

namespace ClassLang

namespace ClassInfo

/-- What a class shows to the checker. -/
def members (info : ClassInfo) : Table Ty × Table Signature := (info.fields, info.methods)

theorem members_eq {info info' : ClassInfo} :
    info'.members = info.members ↔ info'.fields = info.fields ∧ info'.methods = info.methods :=
  Prod.mk.injEq _ _ _ _ ▸ Iff.rfl

end ClassInfo

namespace Scope

/-- Two scopes that differ at most in the layouts of their classes. -/
structure Alike (scope other : Scope) : Prop where
  vars : other.vars = scope.vars
  functions : other.functions = scope.functions
  returns : other.returns = scope.returns
  owner : other.owner = scope.owner
  members : ∀ cls, (other.classes.get? cls).map ClassInfo.members =
    (scope.classes.get? cls).map ClassInfo.members

namespace Alike

variable {scope other : Scope}

theorem symm (alike : scope.Alike other) : other.Alike scope where
  vars := alike.vars.symm
  functions := alike.functions.symm
  returns := alike.returns.symm
  owner := alike.owner.symm
  members := fun cls => (alike.members cls).symm

theorem found (alike : scope.Alike other) {cls : String} {info : ClassInfo}
    (found : scope.classes.get? cls = some info) :
    ∃ info', other.classes.get? cls = some info' ∧ info'.fields = info.fields ∧
      info'.methods = info.methods := by
  have same := alike.members cls
  rw [found, Option.map_some, Option.map_eq_some_iff] at same
  obtain ⟨info', found', members⟩ := same
  exact ⟨info', found', ClassInfo.members_eq.1 members⟩

theorem inMethod (alike : scope.Alike other) : other.inMethod = scope.inMethod := by
  rw [Scope.inMethod, alike.owner, Scope.inMethod]

theorem declares (alike : scope.Alike other) {ty : Ty} (h : scope.Declares ty) :
    other.Declares ty := by
  refine ⟨h.1, fun cls eq => ?_⟩
  obtain ⟨info, found⟩ := h.2 cls eq
  obtain ⟨info', found', -⟩ := alike.found found
  exact ⟨info', found'⟩

theorem enterClass (alike : scope.Alike other) (cls : String) :
    (scope.enterClass cls).Alike (other.enterClass cls) where
  vars := by rw [Scope.enterClass, Scope.enterClass, alike.vars]
  functions := alike.functions
  returns := rfl
  owner := rfl
  members := alike.members

theorem enterMethod (alike : scope.Alike other) {ret : Ty} {params locals : List Param}
    {inner : Scope} (h : scope.enterMethod ret params locals = .ok inner) :
    ∃ inner', other.enterMethod ret params locals = .ok inner' ∧ inner.Alike inner' := by
  have enters := enterMethod_enters h
  refine ⟨_, enterMethod_congr alike.vars h, rfl, ?_, enters.returns.symm, ?_, ?_⟩
  · exact alike.functions.trans enters.functions.symm
  · exact alike.owner.trans enters.owner.symm
  · rw [enters.classes]
    exact alike.members

end Alike

end Scope

/-! ## The rules do not look at layouts -/

namespace Typed

variable {scope other : Scope}

theorem Expr.Checked.alike {e : Expr} (h : e.Checked scope) (alike : scope.Alike other) :
    e.Checked other := by
  induction h with
  | literal value => exact .literal value
  | id found => exact .id (alike.vars ▸ found)
  | unary _ operand ih => exact .unary ih operand
  | binary _ _ operands left right => exact .binary left right operands
  | paren _ ih => exact .paren ih
  | call found _ passed ih => exact .call (alike.functions ▸ found) ih passed
  | construct found notFunction =>
    obtain ⟨info', found', -⟩ := alike.found found
    exact .construct found' (alike.functions ▸ notFunction)
  | methodCall _ object found ordinary method _ passed receiver checked =>
    obtain ⟨info', found', -, methods⟩ := alike.found found
    exact .methodCall receiver object found' ordinary (methods ▸ method) checked passed
  | field _ object found field receiver =>
    obtain ⟨info', found', fields, -⟩ := alike.found found
    exact .field receiver object found' (fields ▸ field)

theorem LValue.Readable.alike {target : LValue} (h : target.Readable scope)
    (alike : scope.Alike other) : target.Readable other := by
  induction h with
  | var found => exact .var (alike.vars ▸ found)
  | field _ object found field receiver =>
    obtain ⟨info', found', fields, -⟩ := alike.found found
    exact .field receiver object found' (fields ▸ field)

theorem LValue.Writable.alike {target : LValue} (h : target.Writable scope)
    (alike : scope.Alike other) : target.Writable other := by
  cases h with
  | var found assignable => exact .var (alike.vars ▸ found) assignable
  | field receiver object found field =>
    obtain ⟨info', found', fields, -⟩ := alike.found found
    exact .field (receiver.alike alike) object found' (fields ▸ field)

mutual

theorem Stmt.Checked.alike {s : Stmt} (h : s.Checked scope) (alike : scope.Alike other) :
    s.Checked other := by
  cases h with
  | assign target checked takes =>
    exact .assign (target.alike alike) (checked.alike alike) takes
  | expr checked => exact .expr (checked.alike alike)
  | bareRet inside => exact .bareRet (alike.inMethod.trans inside)
  | ret inside checked takes =>
    exact .ret (alike.inMethod.trans inside) (checked.alike alike) (alike.returns ▸ takes)
  | branch checked => exact .branch (Arm.Checked.alike checked alike)
  | pass => exact .pass

theorem Arm.Checked.alike {arm : Arm} (h : arm.Checked scope) (alike : scope.Alike other) :
    arm.Checked other := by
  cases h with
  | mk test other block merged =>
    exact .mk (fun e mem => ⟨(test e mem).1.alike alike, (test e mem).2⟩)
      (fun arm mem => Arm.Checked.alike (other arm mem) alike)
      (fun s mem => Stmt.Checked.alike (block s mem) alike) merged

end

theorem Method.Checked.alike {m : Method} {inner : Scope} (h : m.Checked scope inner)
    (alike : scope.Alike other) : ∃ inner', m.Checked other inner' := by
  obtain ⟨inner', enters, same⟩ := alike.enterMethod h.enters
  exact ⟨inner',
    { params := fun p mem => alike.declares (h.params p mem)
      ret := alike.declares h.ret
      definitions := fun v mem =>
        ⟨alike.declares (h.definitions v mem).declared, (h.definitions v mem).takes⟩
      enters
      statements := fun s mem => (h.statements s mem).alike same
      returns := h.returns }⟩

theorem Class.Checked.alike {c : Class} (h : c.Checked scope) (alike : scope.Alike other) :
    c.Checked other where
  fields := fun f mem => ⟨alike.declares (h.fields f mem).declared, (h.fields f mem).takes⟩
  methods := fun m mem => by
    obtain ⟨inner, checked⟩ := h.methods m mem
    exact checked.alike (alike.enterClass c.name)

theorem Class.Shows.alike {c : Class} {info info' : ClassInfo} (h : c.Shows info)
    (members : info'.members = info.members) : c.Shows info' := by
  obtain ⟨fields, methods⟩ := ClassInfo.members_eq.1 members
  exact ⟨fields ▸ h.fields, methods ▸ h.methods⟩

theorem Program.Checked.alike {p : Program} (h : p.Checked scope) (alike : scope.Alike other) :
    p.Checked other where
  functions := alike.functions.trans h.functions
  owner := alike.owner.trans h.owner
  vars := alike.vars ▸ h.vars
  classes :=
    { distinct := h.classes.distinct
      found := fun c mem => by
        obtain ⟨info, shows, found⟩ := h.classes.found c mem
        obtain ⟨info', found', members⟩ := alike.found found
        exact ⟨info', shows.alike (ClassInfo.members_eq.2 members), found'⟩
      only := fun cls info found => by
        obtain ⟨info', found', members⟩ := alike.symm.found found
        obtain ⟨c, mem, name, shows⟩ := h.classes.only cls info' found'
        exact ⟨c, mem, name, shows.alike (ClassInfo.members_eq.2 members).symm⟩ }
  globals := fun v mem => ⟨alike.declares (h.globals v mem).declared, (h.globals v mem).takes⟩
  bodies := fun c mem => (h.bodies c mem).alike alike
  body := fun s mem => (h.body s mem).alike alike

end Typed

/-! ## The pass over the classes -/

namespace Scope

/-- Every one of these classes has its own layout. -/
def LaysOut (scope : Scope) (classes : List Typed.Class) : Prop :=
  ∀ c ∈ classes, ∃ info, scope.classes.get? c.name = some info ∧ info.layout = some c.layout

theorem setLayout_alike {scope laid : Scope} {c : Typed.Class} (h : scope.setLayout c = .ok laid) :
    scope.Alike laid := by
  unfold setLayout at h
  split at h
  · cases h
  · next info found =>
    cases h
    refine ⟨rfl, rfl, rfl, rfl, fun cls => ?_⟩
    rw [Table.get?_insert]
    split
    · next eq => rw [eq, found]; rfl
    · rfl

theorem Alike.trans {first second third : Scope} (h : first.Alike second)
    (h' : second.Alike third) : first.Alike third where
  vars := h'.vars.trans h.vars
  functions := h'.functions.trans h.functions
  returns := h'.returns.trans h.returns
  owner := h'.owner.trans h.owner
  members := fun cls => (h'.members cls).trans (h.members cls)

theorem foldlM_setLayout_ok {classes : List Typed.Class} {scope : Scope}
    (distinct : (classes.map Typed.Class.name).Nodup)
    (known : ∀ c ∈ classes, ∃ info, scope.classes.get? c.name = some info) :
    ∃ laid, classes.foldlM setLayout scope = .ok laid ∧ scope.Alike laid ∧
      laid.LaysOut classes ∧
      ∀ cls, cls ∉ classes.map Typed.Class.name →
        laid.classes.get? cls = scope.classes.get? cls := by
  induction classes generalizing scope with
  | nil =>
    exact ⟨scope, rfl, ⟨rfl, rfl, rfl, rfl, fun _ => rfl⟩, List.forall_mem_nil _, fun _ _ => rfl⟩
  | cons c classes ih =>
    obtain ⟨new, distinct⟩ := List.nodup_cons.1 distinct
    obtain ⟨info, found⟩ := known c List.mem_cons_self
    have step : scope.setLayout c = .ok { scope with
        classes := scope.classes.insert c.name { info with layout := some c.layout } } := by
      rw [setLayout, found]
    have alike := setLayout_alike step
    obtain ⟨laid, pass, alike', lays, rest⟩ := ih distinct fun d mem => by
      obtain ⟨info', found'⟩ := known d (List.mem_cons_of_mem c mem)
      obtain ⟨info'', found'', -⟩ := alike.found found'
      exact ⟨info'', found''⟩
    refine ⟨laid, ?_, alike.trans alike', ?_, fun cls notIn => ?_⟩
    · rw [List.foldlM_cons, bind_eq_ok]
      exact ⟨_, step, pass⟩
    · refine List.forall_mem_cons.2 ⟨⟨{ info with layout := some c.layout }, ?_, rfl⟩, lays⟩
      exact (rest c.name new).trans ((Table.get?_insert ..).trans (if_pos rfl))
    · rw [List.map_cons, List.mem_cons, not_or] at notIn
      exact (rest cls notIn.2).trans ((Table.get?_insert ..).trans (if_neg notIn.1))

theorem withLayouts_ok {p : Typed.Program} {scope : Scope} (checked : p.Checked scope) :
    ∃ laid, scope.withLayouts p = .ok laid ∧ scope.Alike laid ∧ p.Checked laid ∧
      laid.LaysOut p.classes := by
  obtain ⟨laid, pass, alike, lays, -⟩ := foldlM_setLayout_ok checked.classes.distinct
    fun c mem => by
      obtain ⟨info, -, found⟩ := checked.classes.found c mem
      exact ⟨info, found⟩
  exact ⟨laid, pass, alike, checked.alike alike, lays⟩

end Scope
end ClassLang
