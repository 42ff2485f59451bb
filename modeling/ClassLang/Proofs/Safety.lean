/-
Programs are safe.

Types and memory are safe on every host whose trap does not return and whose printers answer 0,
which is the absent value that the checker takes their answers for.  On a host with other answers,
types are safe up to where one of them is first stored, passed on or returned.
-/
import ClassLang.Proofs.Safety.Program
import ClassLang.Proofs.Stack.Module

namespace ClassLang

open Machine (History State)

/-- The function whose code is run. -/
def Machine.History.running (h : History) : Option String :=
  h.active.head?.bind (h.called[·]?)

namespace Typed

/-- The bodies of a program: the function that a body turns into, the scope in which it was checked
and that in which it is lowered, by the two scopes of the outermost level. -/
inductive Program.BodyOf (p : Program) (checker generator : Scope) : String → Scope → Scope → Prop
  | outermost : p.BodyOf checker generator entryExport checker generator
  | method {c : Class} {m : Method} {inner inner' : Scope} (hc : c ∈ p.classes)
    (hm : m ∈ c.methods)
    (enters : (checker.enterClass c.name).enterMethod m.ret m.params
      (m.definitions.map fun v => ⟨v.name, v.ty⟩) = .ok inner)
    (enters' : (generator.enterClass c.name).enterMethod m.ret m.params
      (m.definitions.map fun v => ⟨v.name, v.ty⟩) = .ok inner') :
    p.BodyOf checker generator (methodSymbol c.name m.name) inner inner'

variable {p : Program} {checker generator inner inner' : Scope} {func : String}

theorem Program.BodyOf.scopes (bodyOf : p.BodyOf checker generator func inner inner') :
    p.Scopes checker generator inner inner' := by
  cases bodyOf with
  | outermost => exact .outermost
  | method hc hm enters enters' => exact .method hc hm enters enters'

theorem Program.BodyOf.body {S : Compiled}
    (bodyOf : S.program.BodyOf checker S.scope func inner inner') :
    ∃ own, S.Body func inner' own := by
  cases bodyOf with
  | outermost => exact ⟨[], .entry⟩
  | method hc hm enters enters' =>
    obtain ⟨inner'', checked⟩ := (S.checked.bodies _ hc).methods _ hm
    cases enters'.symm.trans checked.enters
    exact ⟨_, .method hc hm checked⟩

end Typed

namespace Watch

variable {W : Watch} {memory : Memory} {s t : State} {h h' : History}

/-- Source expressions leave words of their types. -/
theorem meets_of_completes
    (leads : (State.start W.target memory).Leads W.target W.host .start s h) {checker : Scope}
    (alike : checker.Alike W.scope) {func : String} {inner inner' : Scope}
    (bodyOf : W.program.BodyOf checker W.scope func inner inner') (running : h.running = some func)
    {e : Source.Expr} {te : Typed.Expr} (check : e.check inner = .ok te) {code rest : Code}
    (lowered : te.lower inner' = .ok code) (runs : s.frame.code = code ++ rest)
    (completes : State.Completes W.target W.host s.callers rest s h t h') (allowed : W.Allowed h') :
    ∃ w, t.frame.stack = w :: s.frame.stack ∧ W.Meets rest te.ty h' w := by
  obtain ⟨own, body⟩ := bodyOf.body
  have checked := (Source.Expr.check_checked check).alike (bodyOf.scopes.alike alike)
  cases active : h.active with
  | nil =>
    rw [History.running, active] at running
    cases running
  | cons k below =>
    rw [History.running, active] at running
    exact pushed_of_completes leads body active running checked lowered runs completes allowed

end Watch

namespace Source

variable {p : Program} {tp : Typed.Program} {scope : Scope} {host : HostFunctions}

/-- On a host whose printers answer 0, whatever else it answers, each state of a run is safe as long
as addresses are words: all variables, parameters, locals and filled fields hold words of their
types, and memory is accessed in the fields of objects only.  What a constructor function hands back
is where its call has its object.  The code of an expression leaves a word of its type. -/
theorem Program.module_safe (accepted : p.check = .ok (tp, scope))
    (plain : ∀ name ∈ p.names, Plain name) (aborts : host.TrapAborts) (zero : host.PrintsZero) :
    ∃ laid m, scope.withLayouts tp = .ok laid ∧ p.toModule = .ok m ∧
      ∀ memory s h, (State.start m memory).Leads m host .start s h →
        tp.heapTop h.called ≤ 2 ^ 32 → tp.Safe s h ∧
        (∀ k w, tp.HandsBack s h k w → w = addressWord (tp.handle h.called k)) ∧
        ∀ func inner inner', tp.BodyOf scope laid func inner inner' → h.running = some func →
          ∀ e te code rest, Expr.check inner e = .ok te → te.lower inner' = .ok code →
            s.frame.code = code ++ rest →
              ∀ t h', State.Completes m host s.callers rest s h t h' →
                tp.heapTop h'.called ≤ 2 ^ 32 →
                  ∃ w, t.frame.stack = w :: s.frame.stack ∧ tp.Fits h'.called te.ty w := by
  obtain ⟨S, rfl, pass, alike, compiled⟩ := exists_compiled accepted plain
  let W : Watch := ⟨S, host, True, fun _ => aborts⟩
  have allowed (h : History) (room : S.program.heapTop h.called ≤ 2 ^ 32) : W.Allowed h :=
    ⟨room, fun _ => Or.inl zero⟩
  refine ⟨S.scope, S.target, pass, compiled, fun memory s h leads room => ?_⟩
  have proper := Watch.proper_of_leads (W := W) leads (allowed h room)
  refine ⟨proper.safe trivial, proper.handle, ?_⟩
  intro func inner inner' bodyOf running e te code rest check lowered runs t h' completes room
  obtain ⟨w, pushed, meets⟩ := Watch.meets_of_completes (W := W) leads alike bodyOf running check
    lowered runs completes (allowed h' room)
  exact ⟨w, pushed, meets trivial fun _ => Or.inl zero⟩

/-- In the middle of the method, before the sum is stored. -/
theorem Program.module_safe_counter :
    ∃ tp scope m, counter.check = .ok (tp, scope) ∧ (∀ name ∈ counter.names, Plain name) ∧
      (HostFunctions.answering 0).TrapAborts ∧ (HostFunctions.answering 0).PrintsZero ∧
      counter.toModule = .ok m ∧
      ∃ s h, (State.start m .blank).Leads m (.answering 0) .start s h ∧
        h.called = [entryExport, "Counter$$constructor", "Counter$__init__", "Counter$add"] ∧
          s.frame.stack = [4, 4] ∧ tp.Safe s h := by
  have plain : ∀ name ∈ counter.names, Plain name := by decide
  have seen : counter.observe (.answering 0) 60 (fun tp _ s h =>
      (s.frame.stack, h.called, tp.heapTop h.called)) =
      some ([4, 4], [entryExport, "Counter$$constructor", "Counter$__init__", "Counter$add"],
        8) := by
    decide +kernel
  obtain ⟨⟨tp, scope⟩, accepted⟩ : ∃ r, counter.check = .ok r := ⟨_, rfl⟩
  have aborts := HostFunctions.answering_aborts 0
  have zero := HostFunctions.answering_zero
  obtain ⟨laid, m, -, compiled, safe⟩ := module_safe accepted plain aborts zero
  obtain ⟨s, h, leads, eq⟩ := leads_of_observe accepted compiled seen
  simp only [Prod.mk.injEq] at eq
  obtain ⟨stack, called, top⟩ := eq
  have room : tp.heapTop h.called ≤ 2 ^ 32 := by
    rw [top]
    decide
  exact ⟨tp, scope, m, accepted, plain, aborts, zero, compiled, s, h, leads, called, stack,
    (safe _ s h leads room).1⟩

/-- On a host that may answer anything, states are safe as long as all answers of printers have
been 0 or dropped at once.  Until then, the code of an expression of the absent type leaves 0,
unless that is dropped at once. -/
theorem Program.module_safe_of_kept_zero (accepted : p.check = .ok (tp, scope))
    (plain : ∀ name ∈ p.names, Plain name) (aborts : host.TrapAborts) :
    ∃ laid m, scope.withLayouts tp = .ok laid ∧ p.toModule = .ok m ∧
      ∀ memory s h, (State.start m memory).Leads m host .start s h →
        tp.heapTop h.called ≤ 2 ^ 32 → (∀ w ∈ h.kept, w = 0) → tp.Safe s h ∧
        ∀ func inner inner', tp.BodyOf scope laid func inner inner' → h.running = some func →
          ∀ e te code rest, Expr.check inner e = .ok te → te.lower inner' = .ok code →
            s.frame.code = code ++ rest →
              ∀ t h', State.Completes m host s.callers rest s h t h' →
                tp.heapTop h'.called ≤ 2 ^ 32 → (∀ w ∈ h'.kept, w = 0) →
                  (te.ty = .none → Code.drops rest = false) →
                    ∃ w, t.frame.stack = w :: s.frame.stack ∧ tp.Fits h'.called te.ty w := by
  obtain ⟨S, rfl, pass, alike, compiled⟩ := exists_compiled accepted plain
  let W : Watch := ⟨S, host, True, fun _ => aborts⟩
  have allowed (h : History) (room : S.program.heapTop h.called ≤ 2 ^ 32)
      (zero : ∀ w ∈ h.kept, w = 0) : W.Allowed h := ⟨room, fun _ => Or.inr zero⟩
  refine ⟨S.scope, S.target, pass, compiled, fun memory s h leads room zero => ?_⟩
  have proper := Watch.proper_of_leads (W := W) leads (allowed h room zero)
  refine ⟨proper.safe trivial, ?_⟩
  intro func inner inner' bodyOf running e te code rest check lowered runs t h' completes room zero
    looks
  obtain ⟨w, pushed, meets⟩ := Watch.meets_of_completes (W := W) leads alike bodyOf running check
    lowered runs completes (allowed h' room zero)
  exact ⟨w, pushed, meets trivial fun absent => Or.inr (looks absent)⟩

/-- The answer of the printer is dropped, so it may be anything. -/
theorem Program.module_safe_of_kept_zero_counter :
    ∃ tp scope m, counter.check = .ok (tp, scope) ∧ (∀ name ∈ counter.names, Plain name) ∧
      (HostFunctions.answering 7).TrapAborts ∧ counter.toModule = .ok m ∧
      ∃ s h, (State.start m .blank).Leads m (.answering 7) .start s h ∧
        s.store.calls = [⟨"print_num", [7]⟩] ∧ h.kept = [] ∧ tp.Safe s h := by
  have plain : ∀ name ∈ counter.names, Plain name := by decide
  have seen : counter.observe (.answering 7) 80 (fun tp _ s h =>
      (s.store.calls, h.kept, tp.heapTop h.called)) = some ([⟨"print_num", [7]⟩], [], 8) := by
    decide +kernel
  obtain ⟨⟨tp, scope⟩, accepted⟩ : ∃ r, counter.check = .ok r := ⟨_, rfl⟩
  have aborts := HostFunctions.answering_aborts 7
  obtain ⟨laid, m, -, compiled, safe⟩ := module_safe_of_kept_zero accepted plain aborts
  obtain ⟨s, h, leads, eq⟩ := leads_of_observe accepted compiled seen
  simp only [Prod.mk.injEq] at eq
  obtain ⟨calls, kept, top⟩ := eq
  have room : tp.heapTop h.called ≤ 2 ^ 32 := by
    rw [top]
    decide
  have zero : ∀ w ∈ h.kept, w = 0 := by
    rw [kept]
    exact List.forall_mem_nil _
  exact ⟨tp, scope, m, accepted, plain, aborts, compiled, s, h, leads, calls, kept,
    (safe _ s h leads room zero).1⟩

/-- A variable for objects that the answer of a printer is stored in. -/
def Program.printed : Program where
  globals := [⟨"c", .object "C", .none⟩]
  classes := [{ name := "C", fields := [], methods := [] }]
  body := [.assign (.var "c") (.call Host.printName [.int 1])]

/-- The word of the call is the answer, though its type is that of the absent value. -/
theorem Program.printed_holds_answer :
    ∃ tp scope m, printed.check = .ok (tp, scope) ∧ (∀ name ∈ printed.names, Plain name) ∧
      (HostFunctions.answering 7).TrapAborts ∧ printed.toModule = .ok m ∧
      ∃ s h, (State.start m .blank).Leads m (.answering 7) .start s h ∧
        tp.heapTop h.called ≤ 2 ^ 32 ∧ s.store.globals.get? "c" = some 7 ∧
          ¬tp.Fits h.called (.object "C") 7 ∧ ¬tp.Safe s h := by
  have plain : ∀ name ∈ printed.names, Plain name := by decide
  have seen : printed.observe (.answering 7) 3 (fun tp _ s h =>
      (s.store.globals.get? "c", h.called, tp.heapTop h.called)) =
      some (some 7, [entryExport], 4) := by
    decide +kernel
  obtain ⟨⟨tp, scope⟩, accepted⟩ : ∃ r, printed.check = .ok r := ⟨_, rfl⟩
  obtain ⟨laid, m, -, -, -, compiled⟩ := toModule_ok accepted
  obtain ⟨s, h, leads, eq⟩ := leads_of_observe accepted compiled seen
  simp only [Prod.mk.injEq] at eq
  obtain ⟨held, called, top⟩ := eq
  have room : tp.heapTop h.called ≤ 2 ^ 32 := by
    rw [top]
    decide
  have unfit : ¬tp.Fits h.called (.object "C") 7 := by
    intro fits
    rcases fits with zero | ⟨k, found, -⟩
    · exact absurd zero (by decide)
    · rw [called] at found
      have first := List.mem_singleton.1 (List.mem_of_getElem? found)
      exact absurd first (by decide)
  refine ⟨tp, scope, m, accepted, plain, HostFunctions.answering_aborts 7, compiled, s, h, leads,
    room, held, unfit, fun safe => ?_⟩
  have declared : tp.globals = printed.globals := (check_parts accepted).2.1.1
  obtain ⟨w, found, fits⟩ := safe.globals ⟨"c", .object "C", .none⟩ (by
    rw [declared]
    exact List.mem_cons_self)
  cases found.symm.trans held
  exact unfit fits

end Source

end ClassLang
