/-
Only the checker refuses programs: what it has passed is laid out and lowered without an error.
-/
import ClassLang.Compile
import ClassLang.Proofs.Lowering.Module

namespace ClassLang

theorem Generator.answer_of_run {α : Type} {g : Generator α} {a : α} {s : BareReturn}
    (run : g.run .zero = .ok a s) : g.answer = .ok a := by
  rw [answer, run]

namespace Source

variable {p : Program}

theorem Program.toModule_eq_answer {tp : Typed.Program} {scope laid : Scope}
    (accepted : p.check = .ok (tp, scope)) (pass : scope.withLayouts tp = .ok laid) :
    p.toModule = (tp.lower laid).answer := by
  rw [Program.toModule, accepted]
  show (scope.withLayouts tp >>= fun laid => (tp.lower laid).answer) = _
  rw [pass]
  rfl

theorem Program.toModule_of_run {tp : Typed.Program} {scope laid : Scope} {m : Module}
    {g : BareReturn} (accepted : p.check = .ok (tp, scope))
    (pass : scope.withLayouts tp = .ok laid) (run : (tp.lower laid).run .zero = .ok m g) :
    p.toModule = .ok m := by
  rw [toModule_eq_answer accepted pass, Generator.answer_of_run run]

/-- What becomes of a checked program. -/
theorem Program.exists_lowered {tp : Typed.Program} {scope : Scope}
    (accepted : p.check = .ok (tp, scope)) :
    ∃ laid m, scope.withLayouts tp = .ok laid ∧ p.toModule = .ok m ∧
      tp.Checked laid ∧ laid.LaysOut tp.classes ∧ tp.Lowers laid m := by
  obtain ⟨laid, pass, -, checked, lays⟩ := Scope.withLayouts_ok (check_checked accepted)
  obtain ⟨m, g, run⟩ := checked.lower_ok lays .zero
  exact ⟨laid, m, pass, toModule_of_run accepted pass run, checked, lays,
    Typed.Program.lower_lowers run⟩

/-- What compiles has passed the checker. -/
theorem Program.lowered_of_toModule {m : Module} (compiled : p.toModule = .ok m) :
    ∃ tp scope laid, p.check = .ok (tp, scope) ∧ scope.withLayouts tp = .ok laid ∧
      tp.Checked laid ∧ laid.LaysOut tp.classes ∧ tp.Lowers laid m := by
  obtain ⟨⟨tp, scope⟩, accepted, -⟩ := bind_eq_ok.1 compiled
  obtain ⟨laid, m', pass, made, checked, lays, lowers⟩ := exists_lowered accepted
  cases made.symm.trans compiled
  exact ⟨tp, scope, laid, accepted, pass, checked, lays, lowers⟩

theorem Program.toModule_ok {tp : Typed.Program} {scope : Scope}
    (accepted : p.check = .ok (tp, scope)) :
    ∃ laid m, tp.Checked laid ∧ laid.LaysOut tp.classes ∧ tp.Lowers laid m ∧
      p.toModule = .ok m := by
  obtain ⟨laid, m, -, compiled, checked, lays, lowers⟩ := exists_lowered accepted
  exact ⟨laid, m, checked, lays, lowers, compiled⟩

theorem Program.compile_ok {tp : Typed.Program} {scope : Scope}
    (accepted : p.check = .ok (tp, scope)) : ∃ text, p.compile = .ok text := by
  obtain ⟨-, m, -, -, -, h⟩ := toModule_ok accepted
  exact ⟨m.text, by rw [Program.compile, bind_eq_ok]; exact ⟨m, h, rfl⟩⟩

theorem Program.compile_of_check_error {e : Error} (refused : p.check = .error e) :
    p.compile = .error e := by
  rw [Program.compile, bind_eq_error]
  refine Or.inl ?_
  rw [Program.toModule, bind_eq_error]
  exact Or.inl refused

/-- A checked program has a layout and a module, whatever state the generator starts in.  So a
program compiles if it passes the checker, and is otherwise refused with the checker's error. -/
theorem Program.only_check_refuses (p : Program) :
    (∀ tp scope, p.check = .ok (tp, scope) → ∃ laid, scope.withLayouts tp = .ok laid ∧
      ∀ g, ∃ m g', (tp.lower laid).run g = .ok m g') ∧
    ((∃ text, p.compile = .ok text) ↔ ∃ tp scope, p.check = .ok (tp, scope)) ∧
    ∀ e, p.compile = .error e ↔ p.check = .error e := by
  refine ⟨fun tp scope accepted => ?_, ⟨?_, ?_⟩, fun e => ⟨?_, compile_of_check_error⟩⟩
  · obtain ⟨laid, pass, -, checked, lays⟩ := Scope.withLayouts_ok (check_checked accepted)
    exact ⟨laid, pass, checked.lower_ok lays⟩
  · intro ⟨text, compiled⟩
    cases accepted : p.check with
    | ok r => exact ⟨r.1, r.2, rfl⟩
    | error e =>
      rw [compile_of_check_error accepted] at compiled
      cases compiled
  · intro ⟨tp, scope, accepted⟩
    exact compile_ok accepted
  · intro refused
    cases accepted : p.check with
    | ok r =>
      obtain ⟨text, compiled⟩ := compile_ok accepted
      rw [refused] at compiled
      cases compiled
    | error e' =>
      have same := (compile_of_check_error accepted).symm.trans refused
      rw [Except.error.inj same]

end Source
end ClassLang
