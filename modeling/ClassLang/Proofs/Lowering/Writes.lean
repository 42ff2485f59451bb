/-
Which variables the functions of a module set.

Inside a method a name of the program can be assigned only if the method itself binds it, and then it
is a local of its function, whatever the name is elsewhere.  So the globals of a module are left to
the outermost statements, but for the first free address, which moves when an object is made.
-/
import ClassLang.Proofs.Lowering.Instructions
import ClassLang.Proofs.Lowering.Offsets

namespace ClassLang

/-! ## Variables that code sets -/

def Instr.globalSet? : Instr → Option String
  | .globalSet name => some name
  | _ => none

def Instr.localSet? : Instr → Option String
  | .localSet name => some name
  | _ => none

namespace Code

/-- The globals that the code sets, at every depth, as often as it says so. -/
def globalsSet (code : Code) : List String := (flat code).filterMap Instr.globalSet?

def localsSet (code : Code) : List String := (flat code).filterMap Instr.localSet?

@[simp] theorem globalsSet_append (first second : Code) :
    globalsSet (first ++ second) = globalsSet first ++ globalsSet second := by
  rw [globalsSet, flat_append, List.filterMap_append]
  rfl

@[simp] theorem localsSet_append (first second : Code) :
    localsSet (first ++ second) = localsSet first ++ localsSet second := by
  rw [localsSet, flat_append, List.filterMap_append]
  rfl

theorem globalSet_mem_of_globalsSet {code : Code} {name : String} (mem : name ∈ globalsSet code) :
    .globalSet name ∈ flat code := by
  obtain ⟨i, inside, sets⟩ := List.mem_filterMap.1 mem
  cases i with
  | globalSet other =>
    cases sets
    exact inside
  | _ => cases sets

theorem localSet_mem_of_localsSet {code : Code} {name : String} (mem : name ∈ localsSet code) :
    .localSet name ∈ flat code := by
  obtain ⟨i, inside, sets⟩ := List.mem_filterMap.1 mem
  cases i with
  | localSet other =>
    cases sets
    exact inside
  | _ => cases sets

end Code

/-! ## Code of statements -/

namespace Typed

/-- What stands in the code of statements: expressions, the ends of assignments, and the returns of
methods. -/
inductive Runs (scope : Scope) : Instr → Prop
  | tame {i : Instr} (h : i.Tame) : Runs scope i
  | puts {i : Instr} (h : Puts scope i) : Runs scope i
  | ret (inside : scope.inMethod = true) : Runs scope .ret

variable {scope : Scope} {bare : BareReturn}

theorem runs_bare (inside : scope.inMethod = true) : Code.All (Runs scope) bare.code := by
  have ret : Code.All (Runs scope) [.ret] := .single (.ret inside) (by simp)
  cases bare with
  | zero =>
    have zero : Code.All (Runs scope) [.const 0] := .single (.tame trivial) (by simp)
    exact zero.append ret
  | self =>
    have get : Code.All (Runs scope) [.localGet "self"] := .single (.tame trivial) (by simp)
    exact get.append ret

theorem Expr.Checked.runs (ready : scope.Ready) {e : Expr} (h : e.Checked scope) {code : Code}
    (lowered : e.lower scope = .ok code) : Code.All (Runs scope) code :=
  (h.tame ready lowered).imp fun _ => .tame

mutual

theorem Stmt.Checked.runs (ready : scope.Ready) {s : Stmt} (h : s.Checked scope) {code : Code}
    (lowered : s.lower scope bare = .ok code) : Code.All (Runs scope) code := by
  cases h with
  | assign target checked _ =>
    rw [Stmt.lower] at lowered
    obtain ⟨front, last, rfl, tame, puts⟩ := target.puts ready checked lowered
    refine (tame.imp fun _ => .tame).append (.single (.puts puts) fun yes no => ?_)
    rintro rfl
    cases puts
  | expr checked =>
    obtain ⟨c, hc, rfl⟩ := Stmt.lower_expr.1 lowered
    exact (checked.runs ready hc).append (.single (.tame rfl) nofun)
  | bareRet inside =>
    rw [Stmt.lower, lowerReturn_none inside] at lowered
    subst lowered
    exact runs_bare inside
  | ret inside checked _ =>
    rw [Stmt.lower, lowerReturn_some inside] at lowered
    rcases lowered with ⟨-, rfl⟩ | ⟨-, c, hc, rfl⟩
    · exact runs_bare inside
    · exact (checked.runs ready hc).append (.single (.ret inside) nofun)
  | branch checked =>
    rw [Stmt.lower] at lowered
    exact Arm.Checked.runs ready checked lowered
  | pass =>
    cases lowered
    exact .single (.tame trivial) nofun

theorem Arm.Checked.runs (ready : scope.Ready) {arm : Arm} (h : arm.Checked scope) {code : Code}
    (lowered : arm.lower scope bare = .ok code) : Code.All (Runs scope) code := by
  cases h with
  | @mk ty condition body alternative test other block merged =>
    cases condition with
    | none =>
      obtain ⟨last, -⟩ := armTy?_else merged
      cases Option.map_eq_none_iff.1 last
      exact Stmt.runs_lowerAll ready block (Arm.lower_else.1 lowered)
    | some e =>
      obtain ⟨yes, hyes, no, hno, c, hc, rfl⟩ := Arm.lower_if.1 lowered
      have runsYes := Stmt.runs_lowerAll ready block hyes
      have runsNo := Arm.runs_lowerAlternative ready other hno
      exact ((test e rfl).1.runs ready hc).append (.branch (.tame trivial) runsYes runsNo)

theorem Arm.runs_lowerAlternative (ready : scope.Ready) {alternative : Option Arm}
    (h : ∀ arm ∈ alternative, arm.Checked scope) {no : Option Code}
    (lowered : Arm.lowerAlternative scope bare alternative = .ok no) :
    ∀ code ∈ no, Code.All (Runs scope) code := by
  cases alternative with
  | none =>
    cases lowered
    exact fun _ mem => nomatch mem
  | some arm =>
    obtain ⟨c, hc, rfl⟩ := Arm.lowerAlternative_some.1 lowered
    intro code mem
    cases mem
    exact Arm.Checked.runs ready (h arm rfl) hc

theorem Stmt.runs_lowerAll (ready : scope.Ready) {stmts : List Stmt}
    (h : ∀ s ∈ stmts, s.Checked scope) {code : Code}
    (lowered : Stmt.lowerAll scope bare stmts = .ok code) : Code.All (Runs scope) code := by
  cases stmts with
  | nil =>
    cases lowered
    exact .nil
  | cons s rest =>
    obtain ⟨c, hc, cs, hcs, rfl⟩ := Stmt.lowerAll_cons.1 lowered
    obtain ⟨first, others⟩ := List.forall_mem_cons.1 h
    have runsRest := Stmt.runs_lowerAll ready others hcs
    exact (Stmt.Checked.runs ready first hc).append runsRest

end

/-! ## Functions -/

theorem globalsSet_initLocals (definitions : List VarDef) :
    (initLocals definitions).globalsSet = [] := by
  induction definitions with
  | nil => rfl
  | cons v rest ih => exact ih

/-- Whatever a method sets is a local of its function. -/
theorem globalsSet_of_runs {code : Code} (runs : Code.All (Runs scope) code)
    (inside : scope.inMethod = true) : code.globalsSet = [] := by
  rw [List.eq_nil_iff_forall_not_mem]
  intro name mem
  cases runs _ (Code.globalSet_mem_of_globalsSet mem) with
  | tame h => exact h
  | puts h =>
    cases h with
    | globalSet outermost found =>
      rw [inside] at outermost
      cases outermost

theorem Method.globalsSet_func (ready : scope.Ready) {cls : String} {m : Method} {inner : Scope}
    (checked : m.Checked (scope.enterClass cls) inner) {code : Code}
    (lowered : Stmt.lowerAll inner m.bare m.statements = .ok code) :
    (m.func cls code).body.globalsSet = [] := by
  have runs := Stmt.runs_lowerAll (checked.ready (ready.enterClass cls)) checked.statements lowered
  have bare : m.bare.code.globalsSet = [] := by cases m.bare <;> rfl
  show (initLocals m.definitions ++ code ++ m.bare.code).globalsSet = []
  rw [Code.globalsSet_append, Code.globalsSet_append, globalsSet_initLocals,
    globalsSet_of_runs runs checked.inMethod, bare]
  rfl

theorem Class.globalsSet_storeFields (c : Class) : c.storeFields.globalsSet = [] := by
  rw [storeFields]
  generalize c.fields.zipIdx = slots
  induction slots with
  | nil => rfl
  | cons slot rest ih => exact ih

theorem Class.globalsSet_makeCode (c : Class) : c.makeCode.globalsSet = [heap] := by
  simp only [makeCode, Code.globalsSet_append, c.globalsSet_storeFields]
  cases c.methods.any Method.isConstructor <;> rfl

theorem Program.Checked.sets_in_entry {p : Program} (checked : p.Checked scope)
    (lays : scope.LaysOut p.classes) {m : Module} (lowers : p.Lowers scope m) :
    (∀ name ∈ m.entry.body.globalsSet, name ∈ p.globals.map (·.name)) ∧
      ∀ name ∈ m.entry.body.localsSet, name = scratch := by
  obtain ⟨functions, bare, code, -, lowered, rfl⟩ := lowers
  have outermost : scope.inMethod = false := by
    rw [Scope.inMethod, checked.owner]
    rfl
  have runs := Stmt.runs_lowerAll (checked.ready lays) checked.body lowered
  have tail : Code.globalsSet (if endsInExpr p.body then [.localGet scratch, .ret] else []) = [] ∧
      Code.localsSet (if endsInExpr p.body then [.localGet scratch, .ret] else []) = [] := by
    cases endsInExpr p.body <;> exact ⟨rfl, rfl⟩
  have body : (p.assemble functions.flatten code).entry.body =
      code ++ (if endsInExpr p.body then [.localGet scratch, .ret] else []) := rfl
  rw [body, Code.globalsSet_append, Code.localsSet_append, tail.1, tail.2, List.append_nil,
    List.append_nil]
  constructor
  · intro name mem
    cases runs _ (Code.globalSet_mem_of_globalsSet mem) with
    | tame h => exact h.elim
    | puts h =>
      cases h with
      | globalSet _ found =>
        obtain ⟨v, declared, rfl, -⟩ := checked.vars.only _ _ found
        exact List.mem_map_of_mem declared
  · intro name mem
    cases runs _ (Code.localSet_mem_of_localsSet mem) with
    | tame h => exact h
    | puts h =>
      cases h with
      | localSet inside =>
        rw [outermost] at inside
        cases inside

end Typed

namespace Source

/-- No function of a method sets a global, whatever names its parameters and locals have, and the
function that makes an object sets one, the first free address, once.  The entry function sets
variables of the program alone, and no local but the scratch local. -/
theorem Program.globals_left_alone {p : Program} {tp : Typed.Program} {scope : Scope}
    (accepted : p.check = .ok (tp, scope)) :
    ∃ laid m, scope.withLayouts tp = .ok laid ∧ p.toModule = .ok m ∧
      (∀ c ∈ tp.classes,
        (∃ f ∈ m.functions, c.lowerConstruct (laid.enterClass c.name) = .ok f ∧
          f.body.globalsSet = [heap]) ∧
        ∀ method ∈ c.methods, ∃ f ∈ m.functions,
          (∀ g, (method.lower (laid.enterClass c.name) c.name).run g = .ok f .zero) ∧
          f.body.globalsSet = []) ∧
      (∀ name ∈ m.entry.body.globalsSet, name ∈ p.globals.map (·.name)) ∧
      ∀ name ∈ m.entry.body.localsSet, name = scratch := by
  obtain ⟨laid, m, pass, compiled, checked, lays, lowers⟩ := exists_lowered accepted
  have declared : tp.globals = p.globals := (check_parts accepted).2.1.1
  refine ⟨laid, m, pass, compiled, fun c mem => ⟨?_, ?_⟩, ?_⟩
  · obtain ⟨f, hf, made, body⟩ := Typed.Class.exists_construct checked lays lowers mem
    exact ⟨f, hf, made, by rw [body, c.globalsSet_makeCode]⟩
  · intro method hm
    obtain ⟨inner, code, body, lowered, hf, run⟩ := lowers.exists_function checked mem hm
    exact ⟨_, hf, run, Typed.Method.globalsSet_func (checked.ready lays) body lowered⟩
  · rw [← declared]
    exact checked.sets_in_entry lays lowers

/-- Both variables of the program have the names of variables of the method, which assigns to
these. -/
def Program.shadowed : Program where
  globals := [⟨"n", .int, .int 1⟩, ⟨"c", .object "C", .none⟩]
  classes := [
    { name := "C"
      fields := []
      methods := [
        { name := "twice"
          params := [⟨"self", .object "C"⟩, ⟨"n", .int⟩]
          ret := .int
          definitions := [⟨"c", .int, .int 0⟩]
          statements := [
            .assign (.var "c") (.binary .add (.id "n") (.id "n")),
            .assign (.var "n") (.id "c"),
            .give (.id "n")] }] }]
  body := [
    .assign (.var "c") (.call "C" []),
    .assign (.var "n") (.methodCall (.id "c") "twice" [.id "n"])]

theorem Program.globals_left_alone_shadowed :
    ∃ tp scope m, shadowed.check = .ok (tp, scope) ∧ shadowed.toModule = .ok m ∧
      (∃ f ∈ m.functions, f.body.globalsSet = [heap]) ∧
      (∃ f ∈ m.functions, f.body.globalsSet = [] ∧ f.body.localsSet = ["c", "c", "n"]) ∧
      (∀ name ∈ m.entry.body.globalsSet, name ∈ ["n", "c"]) ∧
      ∀ name ∈ m.entry.body.localsSet, name = scratch := by
  obtain ⟨⟨tp, scope⟩, accepted⟩ : ∃ r, shadowed.check = .ok r := ⟨_, rfl⟩
  obtain ⟨laid, m, pass, compiled, classes, entry⟩ := globals_left_alone accepted
  refine ⟨tp, scope, m, accepted, compiled, ?_, ?_, entry⟩
  · cases accepted
    obtain ⟨⟨f, hf, -, one⟩, -⟩ := classes _ (.head _)
    exact ⟨f, hf, one⟩
  · cases accepted
    cases pass
    obtain ⟨-, methods⟩ := classes _ (.head _)
    obtain ⟨f, hf, run, none⟩ := methods _ (.head _)
    cases run .zero
    exact ⟨_, hf, none, rfl⟩

end Source
end ClassLang
