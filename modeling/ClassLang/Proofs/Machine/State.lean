/-
A machine for modules: what the instructions do, one step at a time.

The code of a frame is what is left of it to run.  An arm of a branch is put in front of that, which
is the same as running it as a block of its own as long as it leaves the stack as it finds it.
-/
import ClassLang.Module
import ClassLang.Proofs.Machine.Memory

namespace ClassLang

/-- A call of a function of the host. -/
structure HostCall where
  func : String
  args : List Int32
deriving Repr, DecidableEq

/-- What the host answers to a call, given the calls before it.  There is no answer from a function
that does not return; of a function without a result the answer is not looked at. -/
abbrev HostFunctions := List HostCall → HostCall → Option Int32

namespace Machine

/-- What a module has beside the frames of its functions. -/
structure Store where
  globals : Table Int32
  memory : Memory
  /-- The calls of the host so far, in order. -/
  calls : List HostCall

structure Frame where
  code : Code
  /-- The top comes first. -/
  stack : List Int32
  locals : Table Int32
  /-- Whether the function has a result. -/
  result : Bool

structure State where
  frame : Frame
  /-- The frames that wait for this one, innermost first. -/
  callers : List Frame
  store : Store

inductive Outcome where
  | next (s : State)
  /-- The outermost function has returned. -/
  | finished (result : Option Int32) (store : Store)
  /-- A division without a result, or an access outside of memory. -/
  | trapped (store : Store)
  /-- A function of the host has not returned. -/
  | aborted (store : Store)
  /-- Not the code of a valid module. -/
  | stuck

def bit (b : Bool) : Int32 := if b then 1 else 0

theorem bit_cases (b : Bool) : bit b = 0 ∨ bit b = 1 := by
  cases b with
  | false => exact Or.inl rfl
  | true => exact Or.inr rfl

theorem bit_eq_one_iff {b : Bool} : bit b = 1 ↔ b = true := by
  cases b with
  | false => exact ⟨fun h => absurd h (by decide), nofun⟩
  | true => exact ⟨fun _ => rfl, fun _ => rfl⟩

/-- Signed division, without a result if there is none among the words. -/
def divS (a b : Int32) : Option Int32 :=
  if b = 0 ∨ a = Int32.minValue ∧ b = -1 then none else some (a / b)

def remS (a b : Int32) : Option Int32 := if b = 0 then none else some (a % b)

/-- The instructions that turn two words into one. -/
def binary? : Instr → Option (Int32 → Int32 → Option Int32)
  | .add => some fun a b => some (a + b)
  | .sub => some fun a b => some (a - b)
  | .mul => some fun a b => some (a * b)
  | .divS => some divS
  | .remS => some remS
  | .xor => some fun a b => some (a ^^^ b)
  | .eq => some fun a b => some (bit (a = b))
  | .ne => some fun a b => some (bit (a ≠ b))
  | .gtS => some fun a b => some (bit (b < a))
  | .ltS => some fun a b => some (bit (a < b))
  | .geS => some fun a b => some (bit (b ≤ a))
  | .leS => some fun a b => some (bit (a ≤ b))
  | _ => none

namespace State

def setCode (s : State) (code : Code) : State := { s with frame := { s.frame with code } }

def setStack (s : State) (stack : List Int32) : State := { s with frame := { s.frame with stack } }

def push (s : State) (w : Int32) : State := s.setStack (w :: s.frame.stack)

/-- Goes on with the word on top of the stack, and without it on the stack. -/
def pop (s : State) (go : Int32 → State → Outcome) : Outcome :=
  match s.frame.stack with
  | w :: rest => go w (s.setStack rest)
  | [] => .stuck

/-- Goes on with the topmost words, in the order in which they were put there. -/
def popArgs (s : State) (n : Nat) (go : List Int32 → State → Outcome) : Outcome :=
  if n ≤ s.frame.stack.length then
    go (s.frame.stack.take n).reverse (s.setStack (s.frame.stack.drop n))
  else .stuck

/-- Leaves the function, with the word on top of the stack if it has a result. -/
def leave (s : State) : Outcome :=
  let back (result : Option Int32) : Outcome :=
    match s.callers with
    | [] => .finished result s.store
    | caller :: callers =>
      .next ⟨{ caller with stack := result.toList ++ caller.stack }, callers, s.store⟩
  if s.frame.result then s.pop fun w _ => back (some w) else back none

end State

/-- The frame of a function that is called.  Locals start as zero. -/
def Frame.enter (f : Func) (args : List Int32) : Frame where
  code := f.body
  stack := []
  locals := .ofList ((scratch, 0) :: f.locals.map (·, 0) ++ f.params.zip args)
  result := f.result

section

variable (m : Module) (host : HostFunctions)

/-- A call of a function of the module, or else of the host. -/
def State.call (s : State) (func : String) : Outcome :=
  match Host.import? func with
  | some i => s.popArgs i.params fun args s =>
    let call : HostCall := ⟨func, args⟩
    let called := { s with store := { s.store with calls := s.store.calls ++ [call] } }
    match host s.store.calls call with
    | none => .aborted called.store
    | some w => .next (if i.returns then called.push w else called)
  | none =>
    match m.functions.find? (·.name = some func) with
    | some f => s.popArgs f.params.length fun args s =>
      .next ⟨.enter f args, s.frame :: s.callers, s.store⟩
    | none => .stuck

/-- What an instruction does; `s` is past it already. -/
def State.exec (s : State) : Instr → Outcome
  | .const w => .next (s.push w)
  | .localGet name =>
    match s.frame.locals.get? name with
    | some w => .next (s.push w)
    | none => .stuck
  | .localSet name => s.pop fun w s =>
    .next { s with frame := { s.frame with locals := s.frame.locals.insert name w } }
  | .globalGet name =>
    match s.store.globals.get? name with
    | some w => .next (s.push w)
    | none => .stuck
  | .globalSet name => s.pop fun w s =>
    .next { s with store := { s.store with globals := s.store.globals.insert name w } }
  | .load => s.pop fun a s =>
    if a.toUInt32.toNat + 4 ≤ s.store.memory.size then
      .next (s.push (s.store.memory.word a.toUInt32.toNat))
    else .trapped s.store
  | .store => s.pop fun w s => s.pop fun a s =>
    if a.toUInt32.toNat + 4 ≤ s.store.memory.size then
      .next { s with store := { s.store with memory := s.store.memory.putWord a.toUInt32.toNat w } }
    else .trapped s.store
  | .call func _ _ => s.call m host func
  | .branch yes no => s.pop fun w s =>
    .next (s.setCode ((if w ≠ 0 then yes else no.getD []) ++ s.frame.code))
  | .ret => s.leave
  | .nop => .next s
  | i =>
    match binary? i with
    | some op => s.pop fun b s => s.pop fun a s =>
      match op a b with
      | some w => .next (s.push w)
      | none => .trapped s.store
    | none => .stuck

def State.step (s : State) : Outcome :=
  match s.frame.code with
  | [] => s.leave
  | i :: rest => (s.setCode rest).exec m host i

/-- Before the first step of the entry function. -/
def State.start (memory : Memory) : State where
  frame := .enter m.entry []
  callers := []
  store :=
    { globals := .ofList ((heap, heapStart) :: m.globals.map fun g => (g.name, g.init))
      memory
      calls := [] }

/-! ## Runs -/

/-- The machine gets to a state with `Q`, or stops on the way in one of the outcomes `X`. -/
inductive Reaches (Q : State → Prop) (X : Outcome → Prop) : State → Prop
  | here {s : State} (h : Q s) : Reaches Q X s
  | next {s t : State} (step : s.step m host = .next t) (rest : Reaches Q X t) : Reaches Q X s
  | stop {s : State} {o : Outcome} (step : s.step m host = o) (final : ∀ t, o ≠ .next t)
    (h : X o) : Reaches Q X s

end

namespace Reaches

variable {m : Module} {host : HostFunctions} {Q Q' : State → Prop} {X X' : Outcome → Prop}
  {s : State}

theorem bind (h : Reaches m host Q X s) (rest : ∀ t, Q t → Reaches m host Q' X t) :
    Reaches m host Q' X s := by
  induction h with
  | here h => exact rest _ h
  | next step _ ih => exact .next step ih
  | stop step final h => exact .stop step final h

theorem mono (h : Reaches m host Q X s) (state : ∀ t, Q t → Q' t) (outcome : ∀ o, X o → X' o) :
    Reaches m host Q' X' s := by
  induction h with
  | here h => exact .here (state _ h)
  | next step _ ih => exact .next step ih
  | stop step final h => exact .stop step final (outcome _ h)

/-- If it does not stop on the way, it gets there. -/
theorem of_never (h : Reaches m host Q (fun _ => False) s) : Reaches m host Q X s :=
  h.mono (fun _ h => h) fun _ no => no.elim

end Reaches

/-- Runs the machine for so many steps, or until it stops. -/
def State.run (m : Module) (host : HostFunctions) : Nat → State → Outcome
  | 0, s => .next s
  | n + 1, s =>
    match s.step m host with
    | .next t => State.run m host n t
    | o => o

/-- After some steps the machine is in the other state. -/
def State.Gets (m : Module) (host : HostFunctions) (s t : State) : Prop :=
  ∃ n, s.run m host n = .next t

theorem Reaches.gets {m : Module} {host : HostFunctions} {s t : State}
    (h : Reaches m host (· = t) (fun _ => False) s) : s.Gets m host t := by
  induction h with
  | here same => exact ⟨0, congrArg Outcome.next same⟩
  | next step _ ih =>
    obtain ⟨n, run⟩ := ih
    exact ⟨n + 1, by rw [State.run, step]; exact run⟩
  | stop _ _ h => exact h.elim

/-- The machine stops in exactly one outcome, if it does. -/
def State.Stops (m : Module) (host : HostFunctions) (s : State) (o : Outcome) : Prop :=
  (∀ t, o ≠ .next t) ∧ ∃ n, s.run m host n = o

theorem Reaches.stops {m : Module} {host : HostFunctions} {X : Outcome → Prop} {s : State}
    (h : Reaches m host (fun _ => False) X s) : ∃ o, s.Stops m host o ∧ X o := by
  induction h with
  | here h => exact h.elim
  | next step _ ih =>
    obtain ⟨o, ⟨final, n, run⟩, hX⟩ := ih
    exact ⟨o, ⟨final, n + 1, by rw [State.run, step]; exact run⟩, hX⟩
  | @stop s o step final h =>
    refine ⟨o, ⟨final, 1, ?_⟩, h⟩
    rw [State.run, step]
    cases o with
    | next t => exact absurd rfl (final t)
    | _ => rfl

end Machine

end ClassLang
