/-
Programs that go on with more declarations.

New variables and classes come after the old ones under new names.  The checker and the generator
then find everything that the old declarations and statements mention as they did before, so all of
it keeps its typed tree and its code.
-/
import ClassLang.Proofs.Lowering.Weakening
import Mathlib.Data.List.Nodup

namespace ClassLang

/-- Classes that are in both programs have the same layouts. -/
theorem Scope.PartOf.withLayouts {scope other laid laid' : Scope} {tp tp' : Typed.Program}
    (part : scope.PartOf other) (checked : tp.Checked scope) (checked' : tp'.Checked other)
    (pass : scope.withLayouts tp = .ok laid) (pass' : other.withLayouts tp' = .ok laid')
    (sub : tp.classes ⊆ tp'.classes) : laid.PartOf laid' := by
  obtain ⟨_, same, alike, inLaid, lays⟩ := withLayouts_ok checked
  cases same.symm.trans pass
  obtain ⟨_, same', alike', -, lays'⟩ := withLayouts_ok checked'
  cases same'.symm.trans pass'
  refine ⟨?_, fun cls info found => ?_, ?_, ?_, ?_⟩
  · rw [alike.vars, alike'.vars]
    exact part.vars
  · obtain ⟨info₀, found₀, fields, methods⟩ := alike.symm.found found
    obtain ⟨info', found', fields', methods'⟩ := alike'.found (part.classes cls info₀ found₀)
    obtain ⟨c, mem, rfl, -⟩ := inLaid.classes.only cls info found
    obtain ⟨_, found₁, layout⟩ := lays c mem
    obtain ⟨_, found₁', layout'⟩ := lays' c (sub mem)
    cases found₁.symm.trans found
    cases found₁'.symm.trans found'
    have same : info' = info := by
      cases info'
      cases info
      rw [ClassInfo.mk.injEq]
      exact ⟨fields'.trans fields, methods'.trans methods, layout'.trans layout.symm⟩
    rw [found', same]
  · rw [alike.functions, alike'.functions, part.functions]
  · rw [alike.returns, alike'.returns, part.returns]
  · rw [alike.owner, alike'.owner, part.owner]

namespace Typed

/-- The module of a program at the outermost level, from the functions of its classes and the code
of its statements. -/
theorem Program.answer_lower_eq_ok {scope : Scope} (outermost : scope.owner = none) {p : Program}
    {m : Module} :
    (p.lower scope).answer = .ok m ↔
      ∃ functions, (p.classes.mapM fun c => (c.lower scope).answer) = .ok functions ∧
        ∃ code, Stmt.lowerAll scope .zero p.body = .ok code ∧
          p.assemble functions.flatten code = m := by
  have outside : scope.inMethod = false := by rw [Scope.inMethod, outermost]; rfl
  simp only [← Generator.answerFrom_zero, answerFrom_lower, bind_eq_ok, Except.ok.injEq,
    Stmt.lowerAll_outside outside _ .zero]

theorem Program.Checked.exists_functions {scope : Scope} {p : Program} (checked : p.Checked scope)
    (lays : scope.LaysOut p.classes) {classes : List Class} (sub : classes ⊆ p.classes) :
    ∃ functions, (classes.mapM fun c => (c.lower scope).answer) = .ok functions := by
  refine exists_mapM_ok fun c mem => ?_
  obtain ⟨info, found, layout⟩ := lays c (sub mem)
  obtain ⟨fs, _, run⟩ :=
    (checked.bodies c (sub mem)).lower_ok (checked.ready lays) found layout .zero
  exact ⟨fs, Generator.answer_of_run run⟩

/-- The program that goes on with these declarations. -/
def Program.extend (p : Program) (globals : List VarDef) (classes : List Class) : Program :=
  { p with globals := p.globals ++ globals, classes := p.classes ++ classes }

/-- Its module is that of the program with what the declarations turn into at the ends. -/
theorem Program.lower_extend {scope other : Scope} (part : scope.PartOf other)
    (outermost : scope.owner = none) {p : Program} {m : Module}
    (lowered : (p.lower scope).answer = .ok m) (globals : List VarDef) {classes : List Class}
    {functions : List (List Func)}
    (new : (classes.mapM fun c => (c.lower other).answer) = .ok functions) :
    ((p.extend globals classes).lower other).answer = .ok
      { globals := m.globals ++ globals.map fun v => ⟨v.name, v.value.word⟩
        functions := m.functions ++ functions.flatten
        entry := m.entry } := by
  rw [answer_lower_eq_ok outermost] at lowered
  obtain ⟨old, passed, code, entry, rfl⟩ := lowered
  have passed' := CarriesTo.mapM (fun c _ => Class.lower_carries part c) old passed
  have entry' := Stmt.lowerAll_carries part .zero p.body code entry
  rw [answer_lower_eq_ok (part.owner.trans outermost)]
  refine ⟨old ++ functions, ?_, code, entry', ?_⟩
  · simp only [extend, List.mapM_append, bind_eq_ok, pure_eq_ok]
    exact ⟨old, passed', functions, new, rfl⟩
  · simp only [assemble, extend, List.map_append, List.flatten_append]
    rfl

end Typed

namespace Source

variable {p : Program} {globals : List VarDef} {classes : List Class}

/-- The program that goes on with these declarations after its own. -/
def Program.extend (p : Program) (globals : List VarDef) (classes : List Class) : Program :=
  { p with globals := p.globals ++ globals, classes := p.classes ++ classes }

theorem nodup_map_append_iff {α : Type} {name : α → String} {l more : List α}
    (distinct : (l.map name).Nodup) :
    ((l ++ more).map name).Nodup ↔ (∀ x ∈ more, name x ∉ l.map name) ∧ (more.map name).Nodup := by
  rw [List.map_append, List.nodup_append', and_iff_right distinct, List.disjoint_right, and_comm]
  exact and_congr_left fun _ => List.forall_mem_map

theorem Program.exists_scope_iff :
    (∃ scope, p.scope = .ok scope) ↔
      (p.globals.map (·.name)).Nodup ∧ (p.classes.map (·.name)).Nodup ∧
        ∀ c ∈ p.classes, ∃ info, c.signature = .ok info := by
  constructor
  · rintro ⟨scope, start⟩
    have declares := scope_eq_ok.1 start
    exact ⟨declares.vars.distinct, Table.exists_filled_iff.1 ⟨_, declares.classes⟩⟩
  · rintro ⟨distinct, classes⟩
    obtain ⟨vars, filledVars⟩ : ∃ vars, Table.Filled VarDef.name
        (fun v binding => binding = (⟨v.ty, true⟩ : Binding)) p.globals vars :=
      Table.exists_filled_iff.2 ⟨distinct, fun v _ => ⟨_, rfl⟩⟩
    obtain ⟨infos, filledClasses⟩ := Table.exists_filled_iff.2 classes
    exact ⟨{ Scope.empty with vars, classes := infos, functions := Host.builtins },
      scope_eq_ok.2 ⟨filledVars, filledClasses, rfl, rfl, rfl⟩⟩

/-- The longer program has a scope if the new declarations have one of their own and all their names
are new. -/
theorem Program.exists_scope_extend_iff {scope : Scope} (start : p.scope = .ok scope) :
    (∃ both, (p.extend globals classes).scope = .ok both) ↔
      (∀ v ∈ globals, v.name ∉ p.globals.map (·.name)) ∧
        (∀ c ∈ classes, c.name ∉ p.classes.map (·.name)) ∧
          ∃ own, Program.scope { globals, classes, body := [] } = .ok own := by
  obtain ⟨distinct, distinct', signatures⟩ := exists_scope_iff.1 ⟨scope, start⟩
  have newSignatures : (∀ c ∈ p.classes ++ classes, ∃ info, c.signature = .ok info) ↔
      ∀ c ∈ classes, ∃ info, c.signature = .ok info := by
    rw [List.forall_mem_append, and_iff_right signatures]
  rw [exists_scope_iff, exists_scope_iff, extend, nodup_map_append_iff distinct,
    nodup_map_append_iff distinct', newSignatures]
  exact ⟨fun ⟨⟨fresh, own⟩, ⟨fresh', own'⟩, given⟩ => ⟨fresh, fresh', own, own', given⟩,
    fun ⟨fresh, fresh', own, own', given⟩ => ⟨⟨fresh, own⟩, ⟨fresh', own'⟩, given⟩⟩

/-- The old scope is a part of that of the longer program. -/
theorem Program.partOf_extend {scope both : Scope} (start : p.scope = .ok scope)
    (start' : (p.extend globals classes).scope = .ok both) : scope.PartOf both := by
  have old := scope_eq_ok.1 start
  have new := scope_eq_ok.1 start'
  refine ⟨?_, ?_, ?_, ?_, ?_⟩
  · exact old.vars.within new.vars (List.subset_append_left _ _)
      fun _ _ _ given given' => given.trans given'.symm
  · exact old.classes.within new.classes (List.subset_append_left _ _)
      fun _ _ _ given given' => Except.ok.inj (given.symm.trans given')
  · rw [old.functions, new.functions]
  · rw [old.returns, new.returns]
  · rw [old.owner, new.owner]

/-- What is checked in the old scope is checked in the larger one to the same trees. -/
theorem Program.check_extend {tp : Typed.Program} {scope both : Scope}
    (accepted : p.check = .ok (tp, scope)) (start : (p.extend globals classes).scope = .ok both)
    {newGlobals : List VarDef} {newClasses : List Typed.Class}
    (passedGlobals : globals.mapM (·.check both) = .ok newGlobals)
    (passedClasses : classes.mapM (·.check both) = .ok newClasses) :
    (p.extend globals classes).check = .ok (tp.extend newGlobals newClasses, both) := by
  obtain ⟨first, checked, oldClasses, passed, body, last, rfl⟩ := check_eq_ok.1 accepted
  obtain ⟨rfl, checked'⟩ := VarDef.mapM_check_eq_ok.1 passedGlobals
  have part := partOf_extend first start
  refine check_eq_ok.2 ⟨start, ?_, oldClasses ++ newClasses, ?_, body,
    Stmt.checkAll_carries part p.body body last, rfl⟩
  · exact List.forall_mem_append.2 ⟨fun v mem => (checked v mem).mono part, checked'⟩
  · have old := passed.imp fun c tc => Class.check_carries part c tc
    exact List.rel_append old (mapM_eq_ok.1 passedClasses)

/-- Adding declarations under new names changes nothing else.  The longer program has a scope if the
new declarations have one of their own and their names are new, and if they are checked in it, the
whole of it is: the old declarations and statements keep their typed trees, and the module is the
old one with the new globals and the functions of the new classes at the ends of their lists. -/
theorem Program.extend_unchanged {tp : Typed.Program} {scope : Scope} {m : Module}
    (accepted : p.check = .ok (tp, scope)) (compiled : p.toModule = .ok m)
    (globals : List VarDef) (classes : List Class) :
    ((∃ both, (p.extend globals classes).scope = .ok both) ↔
      (∀ v ∈ globals, v.name ∉ p.globals.map (·.name)) ∧
        (∀ c ∈ classes, c.name ∉ p.classes.map (·.name)) ∧
          ∃ own, Program.scope { globals, classes, body := [] } = .ok own) ∧
    ∀ both newGlobals newClasses, (p.extend globals classes).scope = .ok both →
      globals.mapM (·.check both) = .ok newGlobals →
      classes.mapM (·.check both) = .ok newClasses →
      (p.extend globals classes).check = .ok (tp.extend newGlobals newClasses, both) ∧
      ∃ laid functions, both.withLayouts (tp.extend newGlobals newClasses) = .ok laid ∧
        (newClasses.mapM fun c => (c.lower laid).answer) = .ok functions ∧
        (p.extend globals classes).toModule = .ok
          { globals := m.globals ++ newGlobals.map fun v => ⟨v.name, v.value.word⟩
            functions := m.functions ++ functions.flatten
            entry := m.entry } := by
  have first := (check_parts accepted).1
  refine ⟨exists_scope_extend_iff first, fun both newGlobals newClasses start passed passed' => ?_⟩
  have accepted' := check_extend accepted start passed passed'
  refine ⟨accepted', ?_⟩
  obtain ⟨laid, _, pass, -, checked, -, -⟩ := exists_lowered accepted
  obtain ⟨laid', _, pass', -, checked', lays', -⟩ := exists_lowered accepted'
  obtain ⟨functions, new⟩ := checked'.exists_functions lays' (List.subset_append_right _ newClasses)
  have laidPart : laid.PartOf laid' :=
    (partOf_extend first start).withLayouts (check_checked accepted) (check_checked accepted') pass
      pass' (List.subset_append_left _ _)
  refine ⟨laid', functions, pass', new, ?_⟩
  rw [toModule_eq_answer accepted pass] at compiled
  rw [toModule_eq_answer accepted' pass']
  exact Typed.Program.lower_extend laidPart checked.owner compiled newGlobals new

/-- A class that uses a class and a variable from elsewhere, under the name of a built-in. -/
def Class.twice : Class where
  name := Host.printName
  fields := [⟨"counter", .object "Counter", .none⟩]
  methods := [
    { name := "step"
      params := [⟨"self", .object Host.printName⟩]
      ret := .int
      definitions := []
      statements := [
        .give (.methodCall (.field (.id "self") "counter") "add" [.id "k"])] }]

/-- The parameter `k` of the counter hides the new variable. -/
theorem Program.extend_unchanged_counter :
    ∃ tp scope m both newClass functions,
      counter.check = .ok (tp, scope) ∧ counter.toModule = .ok m ∧
      (counter.extend [⟨"k", .int, .int 2⟩] [.twice]).check =
        .ok (tp.extend [⟨"k", .int, .int 2⟩] [newClass], both) ∧
      functions.map Func.name = [some "print$$constructor", some "print$step"] ∧
      (counter.extend [⟨"k", .int, .int 2⟩] [.twice]).toModule = .ok
        { globals := m.globals ++ [⟨"k", 2⟩], functions := m.functions ++ functions,
          entry := m.entry } := by
  obtain ⟨⟨tp, scope⟩, accepted⟩ : ∃ r, counter.check = .ok r := ⟨_, rfl⟩
  obtain ⟨-, m, -, -, -, compiled⟩ := toModule_ok accepted
  obtain ⟨iff, unchanged⟩ := extend_unchanged accepted compiled [⟨"k", .int, .int 2⟩] [.twice]
  obtain ⟨both, start⟩ := iff.2 ⟨by decide, by decide, _, rfl⟩
  obtain ⟨newClass, passed⟩ : ∃ tc, Class.twice.check both = .ok tc := by
    cases start
    exact ⟨_, rfl⟩
  obtain ⟨accepted', laid, functions, pass, new, compiled'⟩ :=
    unchanged both [⟨"k", .int, .int 2⟩] [newClass] start (by cases start; rfl)
      (mapM_eq_ok.2 (.cons passed .nil))
  refine ⟨tp, scope, m, both, newClass, functions.flatten, accepted, compiled, accepted', ?_,
    compiled'⟩
  cases accepted
  cases start
  cases passed
  cases pass
  cases new
  rfl

end Source
end ClassLang
