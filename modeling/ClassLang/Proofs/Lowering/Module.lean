/-
The functions of a module, and that the generator makes them.

Taking a generator's run apart leaves its state out: what a method lowers to is settled by the
method alone, and the outermost statements have no returns.
-/
import ClassLang.Lowering.Program
import ClassLang.Proofs.Lowering.Total

namespace ClassLang

section Runs

variable {ε σ α β : Type} {s s' : σ}

theorem run_bind_eq_ok {x : EStateM ε σ α} {f : α → EStateM ε σ β} {b : β} :
    (x >>= f).run s = .ok b s' ↔ ∃ a t, x.run s = .ok a t ∧ (f a).run t = .ok b s' := by
  simp only [EStateM.run_bind]
  cases x.run s <;> simp

theorem run_pure_eq_ok {a b : α} : (pure a : EStateM ε σ α).run s = .ok b s' ↔ a = b ∧ s = s' := by
  simp

theorem run_set_eq_ok {t : σ} {u : PUnit} :
    (set t : EStateM ε σ PUnit).run s = .ok u s' ↔ t = s' := by
  simp

theorem run_get_eq_ok {t : σ} : (get : EStateM ε σ σ).run s = .ok t s' ↔ s = t ∧ s = s' := by
  simp

theorem run_ofExcept_eq_ok {x : Except ε α} {a : α} :
    (MonadExcept.ofExcept x : EStateM ε σ α).run s = .ok a s' ↔ x = .ok a ∧ s = s' := by
  cases x with
  | ok b => simp [MonadExcept.ofExcept]
  | error e => exact ⟨nofun, nofun⟩

/-- What holds of the outcome of each step whatever state it starts in holds along a whole pass. -/
theorem run_mapM_ok {f : α → EStateM ε σ β} {l : List α}
    (h : ∀ a ∈ l, ∀ s, ∃ b t, (f a).run s = .ok b t) (s : σ) :
    ∃ bs t, (l.mapM f).run s = .ok bs t := by
  induction l generalizing s with
  | nil => exact ⟨[], s, rfl⟩
  | cons a l ih =>
    obtain ⟨b, t, ha⟩ := h a List.mem_cons_self s
    obtain ⟨bs, u, hl⟩ := ih (fun a mem => h a (List.mem_cons_of_mem _ mem)) t
    refine ⟨b :: bs, u, ?_⟩
    rw [List.mapM_cons, run_bind_eq_ok]
    refine ⟨b, t, ha, ?_⟩
    rw [run_bind_eq_ok]
    exact ⟨bs, u, hl, rfl⟩

theorem forall₂_of_run_mapM {f : α → EStateM ε σ β} {R : α → β → Prop}
    (h : ∀ a s b t, (f a).run s = .ok b t → R a b) {l : List α} {bs : List β}
    (run : (l.mapM f).run s = .ok bs s') : List.Forall₂ R l bs := by
  induction l generalizing s bs with
  | nil =>
    rw [List.mapM_nil, run_pure_eq_ok] at run
    rw [← run.1]
    exact .nil
  | cons a l ih =>
    simp only [List.mapM_cons, run_bind_eq_ok, run_pure_eq_ok] at run
    obtain ⟨b, t, ha, bs, _, hl, rfl, rfl⟩ := run
    exact .cons (h a s b t ha) (ih hl)

end Runs

namespace Typed

/-- What a bare return in a method hands back. -/
def Method.bare (m : Method) : BareReturn := if m.isConstructor then .self else .zero

theorem Method.bare_of_constructor {m : Method} (constructor : m.isConstructor = true) :
    m.bare = .self :=
  if_pos constructor

theorem Method.bare_of_ordinary {m : Method} (ordinary : m.isConstructor = false) :
    m.bare = .zero := by
  rw [Method.bare, ordinary]
  rfl

def Method.func (cls : String) (m : Method) (code : Code) : Func :=
  { Func.blank with
    name := some (methodSymbol cls m.name)
    params := m.params.map (·.name)
    result := true
    locals := m.definitions.map (·.name)
    body := initLocals m.definitions ++ code ++ m.bare.code }

/-- `f` is what a method of a class turns into. -/
def Method.Lowers (scope : Scope) (cls : String) (m : Method) (f : Func) : Prop :=
  ∃ inner code,
    scope.enterMethod m.ret m.params (m.definitions.map fun v => ⟨v.name, v.ty⟩) = .ok inner ∧
      Stmt.lowerAll inner m.bare m.statements = .ok code ∧ m.func cls code = f

/-- The function that makes an object, given the code that fills its slots and whether a method runs
on it. -/
def Class.constructFunc (c : Class) (fields : Code) (runs : Bool) : Func :=
  { Func.blank with
    name := some (constructorSymbol c.name)
    result := true
    body := fields ++ [Instr.globalGet heap] ++ (if runs then [Instr.globalGet heap] else []) ++
      [Instr.globalGet heap, .const c.layout.size.toInt32, .add, .globalSet heap] ++
      (if runs then
        [Instr.call (methodSymbol c.name Source.constructorName) 1 true, .localSet scratch]
      else []) ++ [Instr.ret] }

theorem Class.constructFunc_body (c : Class) (fields : Code) (runs : Bool) :
    (c.constructFunc fields runs).body = fields ++ ([Instr.globalGet heap] ++
      ((if runs then [Instr.globalGet heap] else []) ++
        ([Instr.globalGet heap, .const c.layout.size.toInt32, .add, .globalSet heap] ++
          ((if runs then
            [Instr.call (methodSymbol c.name Source.constructorName) 1 true, .localSet scratch]
          else []) ++ [Instr.ret])))) := by
  simp only [Class.constructFunc, List.append_assoc]

/-- `fs` are the functions that a class turns into. -/
def Class.Lowers (scope : Scope) (c : Class) (fs : List Func) : Prop :=
  ∃ construct methods, c.lowerConstruct (scope.enterClass c.name) = .ok construct ∧
    List.Forall₂ (Method.Lowers (scope.enterClass c.name) c.name) c.methods methods ∧
    construct :: methods = fs

def Program.entryFunc (p : Program) (code : Code) : Func :=
  { Func.blank with
    exportName := some entryExport
    result := endsInExpr p.body
    body := code ++ (if endsInExpr p.body then [.localGet scratch, .ret] else []) }

def Program.assemble (p : Program) (functions : List Func) (code : Code) : Module where
  globals := p.globals.map fun v => ⟨v.name, v.value.word⟩
  functions
  entry := p.entryFunc code

/-- `m` is what a program turns into. -/
def Program.Lowers (scope : Scope) (p : Program) (m : Module) : Prop :=
  ∃ functions bare code, List.Forall₂ (Class.Lowers scope) p.classes functions ∧
    Stmt.lowerAll scope bare p.body = .ok code ∧ p.assemble functions.flatten code = m

/-! ## Runs of the generator make these functions -/

section Outcomes

variable {scope : Scope} {g g' : BareReturn}

theorem Method.lower_lowers {cls : String} {m : Method} {f : Func}
    (run : (m.lower scope cls).run g = .ok f g') : m.Lowers scope cls f := by
  simp only [Method.lower, run_bind_eq_ok, run_pure_eq_ok, run_ofExcept_eq_ok] at run
  obtain ⟨inner, _, ⟨enters, -⟩, _, _, -, code, _, ⟨lowered, -⟩, _, _, -, rfl, -⟩ := run
  exact ⟨inner, code, enters, lowered, rfl⟩

theorem Class.lower_lowers {c : Class} {fs : List Func}
    (run : (c.lower scope).run g = .ok fs g') : c.Lowers scope fs := by
  simp only [Class.lower, run_bind_eq_ok, run_pure_eq_ok, run_ofExcept_eq_ok] at run
  obtain ⟨construct, _, ⟨made, -⟩, methods, _, pass, rfl, -⟩ := run
  have lowers := forall₂_of_run_mapM (fun _ _ _ _ => Method.lower_lowers) pass
  exact ⟨construct, methods, made, lowers, rfl⟩

theorem Program.lower_lowers {p : Program} {m : Module}
    (run : (p.lower scope).run g = .ok m g') : p.Lowers scope m := by
  simp only [Program.lower, Program.lowerEntry, run_bind_eq_ok, run_pure_eq_ok, run_get_eq_ok,
    run_ofExcept_eq_ok] at run
  obtain ⟨functions, _, pass, _, _, ⟨bare, _, -, code, _, ⟨lowered, -⟩, rfl, -⟩, rfl, -⟩ := run
  exact ⟨functions, bare, code, forall₂_of_run_mapM (fun _ _ _ _ => Class.lower_lowers) pass,
    lowered, rfl⟩

end Outcomes

/-- The function of each method is in the module. -/
theorem Program.Lowers.exists_method {scope : Scope} {p : Program} {m : Module}
    (lowers : p.Lowers scope m) {c : Class} (mem : c ∈ p.classes) {method : Method}
    (hm : method ∈ c.methods) :
    ∃ f ∈ m.functions, method.Lowers (scope.enterClass c.name) c.name f := by
  obtain ⟨functions, bare, code, pass, -, rfl⟩ := lowers
  obtain ⟨fs, hfs, construct, methods, made, each, rfl⟩ := exists_right_of_forall₂ pass mem
  obtain ⟨f, hf, lowers⟩ := exists_right_of_forall₂ each hm
  exact ⟨f, List.mem_flatten.2 ⟨_, hfs, List.mem_cons_of_mem _ hf⟩, lowers⟩

/-! ## The generator succeeds -/

theorem initFields_ok {cls : String} {layout : Layout} {fields : List VarDef}
    (laid : ∀ f ∈ fields, f.name ∈ layout.fields) :
    ∃ code, initFields cls layout fields = .ok code := by
  induction fields with
  | nil => exact ⟨[], rfl⟩
  | cons f fields ih =>
    obtain ⟨mem, rest⟩ := List.forall_mem_cons.1 laid
    obtain ⟨offset, lies⟩ := Layout.offset?_of_mem mem
    obtain ⟨code, h⟩ := ih rest
    exact ⟨_, by rw [initFields, lies, h]; rfl⟩

theorem Class.lowerConstruct_ok {scope : Scope} {c : Class} {info : ClassInfo}
    (found : scope.classes.get? c.name = some info) (laid : info.layout = some c.layout) :
    ∃ fields, initFields c.name c.layout c.fields = .ok fields ∧
      c.lowerConstruct scope =
        .ok (c.constructFunc fields (info.methods.contains Source.constructorName)) := by
  have laidOut : ∀ f ∈ c.fields, f.name ∈ c.layout.fields := fun f mem => List.mem_map_of_mem mem
  obtain ⟨fields, h⟩ : ∃ fields, initFields c.name c.layout c.fields = .ok fields :=
    initFields_ok laidOut
  refine ⟨fields, h, ?_⟩
  simp only [Class.lowerConstruct, found, laid, h]
  rfl

/-- Whatever state it starts in, the generator makes the function. -/
theorem Method.Lowers.run {scope : Scope} {cls : String} {m : Method} {f : Func}
    (lowers : m.Lowers scope cls f) (g : BareReturn) :
    (m.lower scope cls).run g = .ok f .zero := by
  obtain ⟨inner, code, enters, lowered, rfl⟩ := lowers
  simp only [Method.lower, run_bind_eq_ok, run_pure_eq_ok, run_ofExcept_eq_ok, run_set_eq_ok]
  exact ⟨inner, g, ⟨enters, rfl⟩, ⟨⟩, m.bare, rfl, code, m.bare, ⟨lowered, rfl⟩, ⟨⟩, .zero,
    rfl, rfl, rfl⟩

/-- A method that has passed is lowered in the scope that its check has opened. -/
theorem Method.Lowers.exists_code {scope inner : Scope} {cls : String} {m : Method} {f : Func}
    (lowers : m.Lowers scope cls f) (checked : m.Checked scope inner) :
    ∃ code, Stmt.lowerAll inner m.bare m.statements = .ok code ∧ m.func cls code = f := by
  obtain ⟨inner', code, enters, lowered, made⟩ := lowers
  cases enters.symm.trans checked.enters
  exact ⟨code, lowered, made⟩

theorem Method.Checked.lower_ok {scope inner : Scope} (ready : scope.Ready) {m : Method}
    (checked : m.Checked scope inner) (cls : String) (g : BareReturn) :
    ∃ f g', (m.lower scope cls).run g = .ok f g' := by
  obtain ⟨code, lowered⟩ := Stmt.lowerAll_ok (checked.ready ready) m.bare checked.statements
  have lowers : m.Lowers scope cls (m.func cls code) := ⟨inner, code, checked.enters, lowered, rfl⟩
  exact ⟨m.func cls code, .zero, lowers.run g⟩

theorem Class.Checked.lower_ok {scope : Scope} (ready : scope.Ready) {c : Class} {info : ClassInfo}
    (checked : c.Checked scope) (found : scope.classes.get? c.name = some info)
    (laid : info.layout = some c.layout) (g : BareReturn) :
    ∃ fs g', (c.lower scope).run g = .ok fs g' := by
  have inside : (scope.enterClass c.name).classes.get? c.name = some info := found
  obtain ⟨fields, -, made⟩ := Class.lowerConstruct_ok inside laid
  obtain ⟨methods, g', pass⟩ := run_mapM_ok
    (fun m mem g => by
      obtain ⟨inner, hm⟩ := checked.methods m mem
      exact hm.lower_ok (ready.enterClass c.name) c.name g) g
  refine ⟨c.constructFunc fields (info.methods.contains Source.constructorName) :: methods, g', ?_⟩
  simp only [Class.lower, run_bind_eq_ok, run_pure_eq_ok, run_ofExcept_eq_ok]
  exact ⟨_, g, ⟨made, rfl⟩, methods, g', pass, rfl, rfl⟩

/-- The function of each method of a checked program, with the scope that its code is made in. -/
theorem Program.Lowers.exists_function {scope : Scope} {p : Program} {m : Module}
    (lowers : p.Lowers scope m) (checked : p.Checked scope) {c : Class} (mem : c ∈ p.classes)
    {method : Method} (hm : method ∈ c.methods) :
    ∃ inner code, method.Checked (scope.enterClass c.name) inner ∧
      Stmt.lowerAll inner method.bare method.statements = .ok code ∧
      method.func c.name code ∈ m.functions ∧
      ∀ g, (method.lower (scope.enterClass c.name) c.name).run g =
        .ok (method.func c.name code) .zero := by
  obtain ⟨f, hf, turns⟩ := lowers.exists_method mem hm
  obtain ⟨inner, passed⟩ := (checked.bodies c mem).methods method hm
  obtain ⟨code, lowered, rfl⟩ := turns.exists_code passed
  exact ⟨inner, code, passed, lowered, hf, turns.run⟩

theorem Program.Checked.lower_ok {scope : Scope} {p : Program} (checked : p.Checked scope)
    (lays : scope.LaysOut p.classes) (g : BareReturn) :
    ∃ m g', (p.lower scope).run g = .ok m g' := by
  have ready := checked.ready lays
  obtain ⟨functions, g', pass⟩ := run_mapM_ok
    (fun c mem g => by
      obtain ⟨info, found, laid⟩ := lays c mem
      exact (checked.bodies c mem).lower_ok ready found laid g) g
  obtain ⟨code, lowered⟩ := Stmt.lowerAll_ok ready g' checked.body
  refine ⟨p.assemble functions.flatten code, g', ?_⟩
  simp only [Program.lower, Program.lowerEntry, run_bind_eq_ok, run_pure_eq_ok, run_get_eq_ok,
    run_ofExcept_eq_ok]
  exact ⟨functions, g', pass, p.entryFunc code, g',
    ⟨g', g', ⟨rfl, rfl⟩, code, g', ⟨lowered, rfl⟩, rfl, rfl⟩, rfl, rfl⟩

end Typed
end ClassLang
