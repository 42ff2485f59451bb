/-
Every function of the module of a checked program passes the scan of stack heights.
-/
import ClassLang.Proofs.Stack.Lowering

namespace ClassLang

open Code (Lifts Settles)

namespace Typed

/-! ## Functions -/

/-- An address so many bytes past the first free one. -/
theorem lifts_heapPlus (n : Int32) : Lifts [.globalGet heap, .const n, .add] 0 1 := by
  have get : Lifts [.globalGet heap] 0 1 := .instr rfl
  have const : Lifts [.const n] 0 1 := .instr rfl
  exact (get.append (const.below 1)).append (.instr rfl)

theorem lifts_initFields {cls : String} {layout : Layout} {fields : List VarDef} {code : Code}
    (h : initFields cls layout fields = .ok code) : Lifts code 0 0 := by
  induction fields generalizing code with
  | nil =>
    cases h
    exact .nil 0
  | cons f fields ih =>
    rw [initFields] at h
    split at h
    · next offset _ =>
      simp only [bind_eq_ok, pure_eq_ok] at h
      obtain ⟨rest, hrest, rfl⟩ := h
      have value : Lifts [.const f.value.word] 0 1 := .instr rfl
      have store : Lifts [.const f.value.word, .store] 1 0 := (value.below 1).append (.instr rfl)
      exact ((lifts_heapPlus offset.toInt32).append store).append (ih hrest)
    · cases h

/-- The new object waits on the stack while the first free address is moved, and while its
constructor runs on it. -/
theorem Class.constructFunc_valid {c : Class} {fields : Code} (h : Lifts fields 0 0) (runs : Bool) :
    (c.constructFunc fields runs).StackValid := by
  have get : Lifts [.globalGet heap] 0 1 := .instr rfl
  have move : Lifts [.globalGet heap, .const c.layout.size.toInt32, .add, .globalSet heap] 0 0 :=
    (lifts_heapPlus c.layout.size.toInt32).append (.instr rfl)
  refine ⟨⟨0, true⟩, Settles.scan_ret ?_ false, rfl, fun _ => rfl⟩
  cases runs with
  | false => exact (((h.append get).append (.nil 1)).append (move.below 1)).append (.nil 1)
  | true =>
    have run : Lifts [.call (methodSymbol c.name Source.constructorName) 1 true, .localSet scratch]
        1 0 := by
      have call : Lifts [.call (methodSymbol c.name Source.constructorName) 1 true] 1 1 :=
        .instr rfl
      exact call.append (.instr rfl)
    exact (((h.append get).append (get.below 1)).append (move.below 2)).append (run.below 1)

theorem lifts_initLocals (definitions : List VarDef) : Lifts (initLocals definitions) 0 0 := by
  induction definitions with
  | nil => exact .nil 0
  | cons v rest ih =>
    have value : Lifts [.const v.value.word] 0 1 := .instr rfl
    exact (value.append (.instr rfl)).append ih

theorem Method.func_valid (cls : String) (m : Method) {code : Code} (h : Settles code true) :
    (m.func cls code).StackValid := by
  obtain ⟨ended, scanned⟩ := (Settles.of_lifts (lifts_initLocals m.definitions)).append h false
  refine ⟨⟨0, true⟩, ?_, rfl, fun _ => rfl⟩
  show Code.scan true ⟨0, false⟩ (initLocals m.definitions ++ code ++ m.bare.code) = some ⟨0, true⟩
  rw [Code.scan_append, scanned]
  exact scan_bare m.bare ended

theorem Program.entryFunc_valid (p : Program) {code : Code} (h : Settles code (endsInExpr p.body)) :
    (p.entryFunc code).StackValid := by
  obtain ⟨ended, scanned⟩ := h false
  show ∃ h, Code.scan (endsInExpr p.body) ⟨0, false⟩ (p.entryFunc code).body = some h ∧ _
  rw [Program.entryFunc, Code.scan_append, scanned]
  cases endsInExpr p.body with
  | false => exact ⟨⟨0, ended⟩, rfl, rfl, nofun⟩
  | true =>
    have get : Lifts [.localGet scratch] 0 1 := .instr rfl
    exact ⟨⟨0, true⟩, Settles.scan_ret get ended, rfl, fun _ => rfl⟩

theorem Class.Lowers.valid {scope : Scope} (ready : scope.Ready) {c : Class}
    (checked : c.Checked scope) {info : ClassInfo}
    (found : scope.classes.get? c.name = some info) (laid : info.layout = some c.layout)
    {fs : List Func} (lowers : c.Lowers scope fs) : ∀ f ∈ fs, f.StackValid := by
  obtain ⟨construct, methods, made, pass, rfl⟩ := lowers
  refine List.forall_mem_cons.2 ⟨?_, fun f mem => ?_⟩
  · have inside : (scope.enterClass c.name).classes.get? c.name = some info := found
    obtain ⟨fields, hfields, made'⟩ := Class.lowerConstruct_ok inside laid
    cases made.symm.trans made'
    exact Class.constructFunc_valid (lifts_initFields hfields) _
  · obtain ⟨m, hm, turns⟩ := exists_left_of_forall₂ pass mem
    obtain ⟨inner, checked⟩ := checked.methods m hm
    obtain ⟨code, lowered, rfl⟩ := turns.exists_code checked
    have ready := checked.ready (ready.enterClass c.name)
    exact m.func_valid c.name
      (Stmt.settles_lowerAll ready (fun _ => rfl) checked.statements lowered)

theorem Program.Checked.valid {scope : Scope} {p : Program} (checked : p.Checked scope)
    (lays : scope.LaysOut p.classes) {m : Module} (lowers : p.Lowers scope m) :
    ∀ f ∈ m.entry :: m.functions, f.StackValid := by
  have ready := checked.ready lays
  obtain ⟨functions, bare, code, pass, lowered, rfl⟩ := lowers
  refine List.forall_mem_cons.2 ⟨?_, fun f mem => ?_⟩
  · have outermost : scope.inMethod = true → endsInExpr p.body = true := by
      rw [Scope.inMethod, checked.owner]
      intro inside
      cases inside
    exact p.entryFunc_valid (Stmt.settles_lowerAll ready outermost checked.body lowered)
  · obtain ⟨fs, hfs, hf⟩ := List.mem_flatten.1 mem
    obtain ⟨c, hc, lowers⟩ := exists_left_of_forall₂ pass hfs
    obtain ⟨info, found, laid⟩ := lays c hc
    exact lowers.valid ready (checked.bodies c hc) found laid f hf

/-! ## Bodies -/

/-- The two scopes of one body of a program, that in which it was checked and that in which it is
lowered, by the two scopes of the outermost level. -/
inductive Program.Scopes (p : Program) (checker generator : Scope) : Scope → Scope → Prop
  | outermost : p.Scopes checker generator checker generator
  | method {c : Class} {m : Method} {inner inner' : Scope} (hc : c ∈ p.classes)
    (hm : m ∈ c.methods)
    (enters : (checker.enterClass c.name).enterMethod m.ret m.params
      (m.definitions.map fun v => ⟨v.name, v.ty⟩) = .ok inner)
    (enters' : (generator.enterClass c.name).enterMethod m.ret m.params
      (m.definitions.map fun v => ⟨v.name, v.ty⟩) = .ok inner') :
    p.Scopes checker generator inner inner'

theorem Program.Scopes.alike {p : Program} {checker generator inner inner' : Scope}
    (scopes : p.Scopes checker generator inner inner') (alike : checker.Alike generator) :
    inner.Alike inner' := by
  cases scopes with
  | outermost => exact alike
  | method hc hm enters enters' =>
    obtain ⟨inner'', enters'', alike⟩ := (alike.enterClass _).enterMethod enters
    cases enters'.symm.trans enters''
    exact alike

theorem Program.Scopes.ready {p : Program} {checker generator inner inner' : Scope}
    (scopes : p.Scopes checker generator inner inner') (checked : p.Checked generator)
    (lays : generator.LaysOut p.classes) : inner'.Ready := by
  have ready := checked.ready lays
  cases scopes with
  | outermost => exact ready
  | @method c m _ _ hc hm enters enters' =>
    obtain ⟨inner'', hm⟩ := (checked.bodies c hc).methods m hm
    cases enters'.symm.trans hm.enters
    exact hm.ready (ready.enterClass c.name)

end Typed

/-! ## Programs -/

/-- The module of a checked program exists and all its functions are valid.  Within them, each
checked expression leaves one word on the stack it finds, and each checked statement none. -/
theorem Source.Program.module_stackValid {p : Source.Program} {tp : Typed.Program} {scope : Scope}
    (accepted : p.check = .ok (tp, scope)) :
    ∃ laid, scope.withLayouts tp = .ok laid ∧
      (∀ g, ∃ m g', (tp.lower laid).run g = .ok m g' ∧
        ∀ f ∈ m.entry :: m.functions, f.StackValid) ∧
      ∀ inner inner', tp.Scopes scope laid inner inner' →
        (∀ e te, Expr.check inner e = .ok te → ∃ code, te.lower inner' = .ok code ∧
          code.Lifts 0 1 ∧ code.netEffect = 1) ∧
        ∀ s ts bare, Stmt.check inner s = .ok ts → ∃ code, ts.lower inner' bare = .ok code ∧
          code.Settles inner'.inMethod ∧ code.netEffect = 0 := by
  obtain ⟨laid, pass, alike, checked, lays⟩ := Scope.withLayouts_ok (check_checked accepted)
  refine ⟨laid, pass, fun g => ?_, fun inner inner' scopes => ⟨fun e te h => ?_, ?_⟩⟩
  · obtain ⟨m, g', run⟩ := checked.lower_ok lays g
    exact ⟨m, g', run, checked.valid lays (Typed.Program.lower_lowers run)⟩
  · have checked' := (Expr.check_checked h).alike (scopes.alike alike)
    have ready := scopes.ready checked lays
    obtain ⟨code, lowered⟩ := checked'.lower_ok ready
    have lifts := checked'.lifts ready lowered
    exact ⟨code, lowered, lifts, lifts.netEffect⟩
  · intro s ts bare h
    have checked' := (Stmt.check_checked h).alike (scopes.alike alike)
    have ready := scopes.ready checked lays
    obtain ⟨code, lowered⟩ := checked'.lower_ok ready bare
    have settles := checked'.settles ready (fun inside => inside) lowered
    exact ⟨code, lowered, settles, settles.netEffect⟩

theorem Source.Program.module_stackValid_counter :
    ∃ tp scope, counter.check = .ok (tp, scope) ∧ ∃ laid, scope.withLayouts tp = .ok laid ∧
      ∀ g, ∃ m g', (tp.lower laid).run g = .ok m g' ∧
        ∀ f ∈ m.entry :: m.functions, f.StackValid := by
  obtain ⟨⟨tp, scope⟩, accepted⟩ : ∃ r, counter.check = .ok r := ⟨_, rfl⟩
  obtain ⟨laid, pass, valid, -⟩ := module_stackValid accepted
  exact ⟨tp, scope, accepted, laid, pass, valid⟩

end ClassLang
