/-
Compilation keeps what programs mean.

The generator makes names of its own with a `$`, so the names of the program have none.  Fields are
told apart by where they lie and not by name.
-/
import ClassLang.Proofs.Compile
import ClassLang.Proofs.Semantics.Fuel
import ClassLang.Proofs.Simulation.Program

namespace ClassLang

open Machine (Outcome State)

/-- A host whose numbers are these answers. -/
def HostFunctions.ofAnswers (answers : String → List Int32 → Int32) : HostFunctions :=
  fun _ call =>
    if call.func = Host.trapName then none
    else if Host.builtins.contains call.func ∧ call.func ≠ Host.printName then
      some (answers call.func call.args)
    else some 0

theorem HostFunctions.ofAnswers_standard (answers : String → List Int32 → Int32) :
    (ofAnswers answers).Standard answers where
  trap := fun _ => rfl
  print := fun _ ty _ => by cases ty <;> rfl
  number := fun _ name args known notPrint => by
    have returns : name ≠ Host.trapName := by
      rintro rfl
      exact absurd known (by decide)
    rw [ofAnswers, if_neg returns, if_pos ⟨known, notPrint⟩]

/-- The answers that the names of the built-ins promise. -/
def Host.arithmetic : String → List Int32 → Int32
  | "abs", [a] => if a < 0 then -a else a
  | "min", [a, b] => if b < a then b else a
  | "max", [a, b] => if a < b then b else a
  | "pow", [a, b] => a ^ b.toNatClampNeg
  | _, _ => 0

namespace Source

variable {p : Program} {tp : Typed.Program} {scope : Scope}

theorem Program.check_fielded (accepted : p.check = .ok (tp, scope))
    (fielded : ∀ c ∈ p.classes, c.fields ≠ []) : ∀ c ∈ tp.classes, c.fields ≠ [] := by
  intro tc mem
  obtain ⟨-, -, classes, -⟩ := check_parts accepted
  obtain ⟨c, hc, check⟩ := exists_left_of_forall₂ classes mem
  rw [(Class.check_parts check).1.2]
  exact fielded c hc

/-! ## Compiled programs -/

/-- The module of a checked program does what the evaluator does, whatever memory it starts with, as
long as there is room for all objects. -/
theorem Program.module_preserves {host : HostFunctions} {answers : String → List Int32 → Int32}
    {memory : Memory} (accepted : p.check = .ok (tp, scope))
    (plain : ∀ name ∈ p.names, Plain name) (fielded : ∀ c ∈ p.classes, c.fields ≠ [])
    (standard : host.Standard answers) (addressable : memory.size ≤ 2 ^ 32) :
    ∃ m, p.toModule = .ok m ∧ ∀ r, tp.Evaluates answers r →
      (worldOf r).heapEnd tp ≤ memory.size →
        ∃ o, (State.start m memory).Stops m host o ∧ tp.Realizes memory.size r o := by
  obtain ⟨laid, m, checked, lays, lowers, compiled⟩ := toModule_ok accepted
  refine ⟨m, compiled, fun r ⟨finished, fuel, run⟩ room => ?_⟩
  let S : Setting := ⟨tp, laid, m, host, answers, memory.size, checked, lays, lowers,
    check_plain accepted plain, check_fielded accepted fielded, standard, addressable⟩
  have start : tp.world.heapEnd tp ≤ memory.size :=
    Nat.le_trans (run ▸ (Typed.Program.grows_eval fuel tp.world).heapEnd_le) room
  have follows : S.Follows r S.Ends (State.start m memory) :=
    run ▸ Setting.follows_program fuel rfl start
  have reaches := follows room
  cases r with
  | ok v w =>
    refine Machine.Reaches.stops (Machine.Reaches.bind reaches.of_never fun t ends => ?_)
    obtain ⟨store, held, step⟩ := ends
    exact .stop step nofun ⟨rfl, held⟩
  | error halt w =>
    cases halt with
    | unfinished => exact absurd rfl (finished w)
    | fault | absent | stuck => exact Machine.Reaches.stops reaches

theorem Program.module_preserves_counter :
    ∃ m, counter.toModule = .ok m ∧ ∃ store,
      (State.start m ⟨2 ^ 16, fun _ => 0⟩).Stops m (.ofAnswers Host.arithmetic)
        (.finished (some 7) store) ∧ store.calls = [⟨"print_num", [7]⟩] := by
  have runs : (counter.check.toOption.bind fun r =>
      match r.1.run Host.arithmetic 2 with
      | .ok v w => some (v, w.events, w.heapEnd r.1)
      | .error _ _ => none) = some (some (.int 7), [⟨"print_num", [.int 7]⟩], 8) := by
    decide +kernel
  obtain ⟨⟨tp, scope⟩, accepted⟩ : ∃ r, counter.check = .ok r := ⟨_, rfl⟩
  have addressable : (⟨2 ^ 16, fun _ => 0⟩ : Memory).size ≤ 2 ^ 32 := by decide
  obtain ⟨m, compiled, preserves⟩ := module_preserves accepted (by decide) (by decide)
    (HostFunctions.ofAnswers_standard Host.arithmetic) addressable
  refine ⟨m, compiled, ?_⟩
  rw [accepted] at runs
  cases run : tp.run Host.arithmetic 2 with
  | error halt w => simp [Except.toOption, run] at runs
  | ok v w =>
    simp only [Except.toOption, Option.bind_some, run, Option.some.injEq, Prod.mk.injEq] at runs
    obtain ⟨rfl, events, ends⟩ := runs
    have evaluates : tp.Evaluates Host.arithmetic (.ok (some (.int 7)) w) := ⟨nofun, 2, run⟩
    have room : w.heapEnd tp ≤ 2 ^ 16 := by
      rw [ends]
      decide
    obtain ⟨o, stops, realizes⟩ := preserves _ evaluates room
    cases o with
    | finished result store =>
      obtain ⟨rfl, held⟩ := realizes
      exact ⟨store, stops, by rw [held.calls, events]; rfl⟩
    | _ => exact realizes.elim

end Source
end ClassLang
