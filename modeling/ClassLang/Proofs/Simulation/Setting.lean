/-
The machine beside the evaluator.

While the evaluator goes through an expression or a statement, the machine goes through its code.
`Follows` says where that takes it; everything after is about one form of the language or another.
-/
import ClassLang.Proofs.Lowering.Compiled
import ClassLang.Proofs.Simulation.Agreement

namespace ClassLang

open Machine (Frame Outcome Reaches State)

/-- A host that prints, that computes numbers from numbers, and whose trap does not return. -/
structure HostFunctions.Standard (host : HostFunctions) (answers : String → List Int32 → Int32) :
    Prop where
  trap : ∀ calls, host calls ⟨Host.trapName, []⟩ = none
  print : ∀ calls ty args, host calls ⟨Host.printerOf ty, args⟩ = some 0
  number : ∀ calls name args, Host.builtins.contains name = true → name ≠ Host.printName →
    host calls ⟨name, args⟩ = some (answers name args)

/-- A checked program and its module, on a host and with so many bytes of memory. -/
structure Setting where
  program : Typed.Program
  scope : Scope
  target : Module
  host : HostFunctions
  answers : String → List Int32 → Int32
  limit : Nat
  checked : program.Checked scope
  lays : scope.LaysOut program.classes
  lowers : program.Lowers scope target
  plain : program.Plain
  fielded : ∀ c ∈ program.classes, c.fields ≠ []
  standard : host.Standard answers
  limit_le : limit ≤ 2 ^ 32

/-- How the machine stops when the evaluator halts without a result. -/
def Halt.Stops (p : Typed.Program) (limit : Nat) : Halt → World → Outcome → Prop
  | .fault, w, .trapped store => w.HeldBy p limit store
  | .absent, w, .aborted store => ∃ before, w.HeldBy p limit before ∧
    store = { before with calls := before.calls ++ [⟨Host.trapName, []⟩] }
  | _, _, _ => False

namespace Setting

variable (S : Setting)

def compiled : Compiled :=
  ⟨S.program, S.scope, S.target, S.checked, S.lays, S.lowers, S.plain⟩

/-- If the evaluator has a result, the machine gets from `s` to a state that goes with it, and if
the evaluator halts, so does the machine.  Nothing is said of runs without enough fuel or memory. -/
def Follows {α : Type} (r : EStateM.Result Halt World α) (Q : α → World → State → Prop)
    (s : State) : Prop :=
  (worldOf r).heapEnd S.program ≤ S.limit →
    match r with
    | .ok a w => Reaches S.target S.host (Q a w) (fun _ => False) s
    | .error .unfinished _ => True
    | .error h w => Reaches S.target S.host (fun _ => False) (h.Stops S.program S.limit w) s

namespace Follows

variable {S} {α β : Type} {Q : α → World → State → Prop} {Q' : β → World → State → Prop}
  {r : EStateM.Result Halt World α} {x : Eval α} {f : α → Eval β} {w : World} {s : State}

/-- The machine may take steps of its own first. -/
theorem step (h : Reaches S.target S.host (S.Follows r Q) (fun _ => False) s) :
    S.Follows r Q s := by
  intro room
  cases r with
  | ok a w => exact Reaches.bind h fun t follows => follows room
  | error halt w =>
    cases halt with
    | unfinished => trivial
    | fault | absent | stuck => exact Reaches.bind h.of_never fun t follows => follows room

theorem pure {a : α} (h : Q a w s) : S.Follows ((Pure.pure a : Eval α) w) Q s :=
  fun _ => .here h

/-- The machine may take steps of its own afterwards. -/
theorem andThen {R : α → World → State → Prop} (h : S.Follows r Q s)
    (rest : ∀ a w t, r = .ok a w → Q a w t →
      Reaches S.target S.host (R a w) (fun _ => False) t) : S.Follows r R s := by
  intro room
  have there := h room
  cases r with
  | ok a w => exact Reaches.bind there (rest a w · rfl)
  | error halt w => cases halt <;> exact there

/-- What has been made so far has had room. -/
theorem within (earlier : w.Extends (worldOf r))
    (h : w.heapEnd S.program ≤ S.limit → S.Follows r Q s) : S.Follows r Q s :=
  fun room => h (Nat.le_trans earlier.heapEnd_le room) room

/-- What comes after has all that has been made so far. -/
theorem bind (first : S.Follows (x w) Q s) (grows : ∀ a, Grows (f a))
    (rest : ∀ a w' t, x w = .ok a w' → Q a w' t → S.Follows (f a w') Q' t) :
    S.Follows ((x >>= f) w) Q' s := by
  intro room
  have run : (x >>= f) w = EStateM.bind x f w := rfl
  rw [run, EStateM.bind] at room ⊢
  cases h : x w with
  | ok a w' =>
    rw [h] at first room
    have earlier : w'.heapEnd S.program ≤ S.limit :=
      Nat.le_trans (grows a w').heapEnd_le room
    have there := first earlier
    exact step (there.mono (fun t q => rest a w' t h q) fun _ no => no) room
  | error halt w' =>
    rw [h] at first room
    have there := first room
    cases halt <;> exact there

end Follows
end Setting
end ClassLang
