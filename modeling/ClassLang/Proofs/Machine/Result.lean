/-
What a run hands back.

A frame keeps whether its function has a result.  So a run that finishes hands back a word if the
function that it has started with has a result, and nothing otherwise.
-/
import ClassLang.Proofs.Machine.State

namespace ClassLang
namespace Machine

/-- Whether the function that all others have been called from has a result. -/
def State.hasResult (s : State) : Bool := (s.callers.getLastD s.frame).result

/-- What a step may lead to if the outermost function has a result or not. -/
def Outcome.Suits (result : Bool) : Outcome → Prop
  | .next t => t.hasResult = result
  | .finished value _ => value.isSome = result
  | .trapped _ | .aborted _ | .stuck => True

namespace State

variable {s : State} {result : Bool}

/-- Within a function the outermost one stays the same. -/
theorem hasResult_eq {t : State} (callers : t.callers = s.callers)
    (same : t.frame.result = s.frame.result) : t.hasResult = s.hasResult := by
  unfold hasResult
  rw [callers]
  cases s.callers with
  | nil => exact same
  | cons caller callers => rfl

/-- The function that calls stays below the one that is called. -/
theorem hasResult_enter (s : State) (frame : Frame) (store : Store) :
    (⟨frame, s.frame :: s.callers, store⟩ : State).hasResult = s.hasResult := by
  rw [hasResult, List.getLastD_cons]
  rfl

theorem suits_pop {go : Int32 → State → Outcome}
    (next : ∀ w stack, (go w (s.setStack stack)).Suits result) : (s.pop go).Suits result := by
  unfold pop
  split
  · exact next _ _
  · trivial

theorem suits_popArgs {count : Nat} {go : List Int32 → State → Outcome}
    (next : ∀ args stack, (go args (s.setStack stack)).Suits result) :
    (s.popArgs count go).Suits result := by
  unfold popArgs
  split
  · exact next _ _
  · trivial

theorem suits_leave (s : State) : s.leave.Suits s.hasResult := by
  obtain ⟨⟨code, stack, locals, result⟩, callers, store⟩ := s
  cases callers with
  | nil =>
    cases result with
    | false => rfl
    | true =>
      rw [leave, if_pos rfl]
      exact suits_pop fun w _ => rfl
  | cons caller callers =>
    -- the caller is the outermost function now if there is no other
    have same (left : List Int32) :
        State.hasResult ⟨{ caller with stack := left }, callers, store⟩ =
          State.hasResult ⟨⟨code, stack, locals, result⟩, caller :: callers, store⟩ := by
      cases callers with
      | nil => rfl
      | cons => rfl
    cases result with
    | false => exact same _
    | true =>
      rw [leave, if_pos rfl]
      exact suits_pop fun w _ => same _

section

variable (m : Module) (host : HostFunctions)

theorem suits_call (s : State) (func : String) : (s.call m host func).Suits s.hasResult := by
  unfold call
  split
  · refine suits_popArgs fun args stack => ?_
    dsimp only
    split
    · trivial
    · split
      · exact hasResult_eq rfl rfl
      · exact hasResult_eq rfl rfl
  · split
    · refine suits_popArgs fun args stack => ?_
      have same : (s.setStack stack).hasResult = s.hasResult := hasResult_eq rfl rfl
      exact ((s.setStack stack).hasResult_enter _ _).trans same
    · trivial

theorem suits_binary (s : State) {i : Instr} {op : Int32 → Int32 → Option Int32}
    (known : binary? i = some op) : (s.exec m host i).Suits s.hasResult := by
  cases i <;> cases known <;> simp only [exec, binary?]
  case divS | remS =>
    refine suits_pop fun b _ => suits_pop fun a _ => ?_
    split
    · exact hasResult_eq rfl rfl
    · trivial
  all_goals exact suits_pop fun b _ => suits_pop fun a _ => hasResult_eq rfl rfl

theorem suits_exec (s : State) (i : Instr) : (s.exec m host i).Suits s.hasResult := by
  cases i with
  | const w => exact hasResult_eq rfl rfl
  | localGet name =>
    rw [exec]
    split
    · exact hasResult_eq rfl rfl
    · trivial
  | globalGet name =>
    rw [exec]
    split
    · exact hasResult_eq rfl rfl
    · trivial
  | localSet name =>
    rw [exec]
    exact suits_pop fun w _ => hasResult_eq rfl rfl
  | globalSet name =>
    rw [exec]
    exact suits_pop fun w _ => hasResult_eq rfl rfl
  | load =>
    rw [exec]
    refine suits_pop fun a _ => ?_
    split
    · exact hasResult_eq rfl rfl
    · trivial
  | store =>
    rw [exec]
    refine suits_pop fun w _ => suits_pop fun a _ => ?_
    split
    · exact hasResult_eq rfl rfl
    · trivial
  | call func params returns => exact s.suits_call m host func
  | branch yes no =>
    rw [exec]
    exact suits_pop fun w _ => hasResult_eq rfl rfl
  | ret => exact s.suits_leave
  | nop => rfl
  | _ => exact s.suits_binary m host rfl

theorem suits_step (s : State) : (s.step m host).Suits s.hasResult := by
  unfold step
  split
  · exact s.suits_leave
  · next i rest _ =>
    have same : (s.setCode rest).hasResult = s.hasResult := hasResult_eq rfl rfl
    rw [← same]
    exact (s.setCode rest).suits_exec m host i

theorem suits_run (s : State) (n : Nat) : (s.run m host n).Suits s.hasResult := by
  induction n generalizing s with
  | zero => rfl
  | succ n ih =>
    have step := s.suits_step m host
    unfold run
    split
    · next t taken =>
      rw [taken] at step
      rw [← show t.hasResult = s.hasResult from step]
      exact ih t
    · exact step

/-- The entry function hands back a word if it is declared to, and otherwise nothing. -/
theorem isSome_of_finished {memory : Memory} {value : Option Int32} {store : Store}
    (stops : (State.start m memory).Stops m host (.finished value store)) :
    value.isSome = m.entry.result := by
  obtain ⟨-, n, run⟩ := stops
  have suits := (State.start m memory).suits_run m host n
  rw [run] at suits
  exact suits

end

end State
end Machine
end ClassLang
