/-
Safety of a state, and what has to be kept for it.

All values of a state are words, so the state of a safe run holds in each variable and in each field
that has been filled a word of its type, and touches memory in slots of objects only.  The first
free address is kept beside: it is the top of the heap, but for the time that a constructor function
is filling its object.

Types count on some hosts only.  If the trap returns, code goes on with the address 0 as if an
object lay there.  So the types are kept on condition, and the heap without.
-/
import ClassLang.Proofs.Machine.History
import ClassLang.Proofs.Safety.Heap

namespace ClassLang

open Machine (Frame History State Store)

/-! ## Hosts -/

/-- The trap does not return. -/
def HostFunctions.TrapAborts (host : HostFunctions) : Prop :=
  ∀ calls args, host calls ⟨Host.trapName, args⟩ = none

/-- Printers answer 0, if they answer. -/
def HostFunctions.PrintsZero (host : HostFunctions) : Prop :=
  ∀ calls ty args w, host calls ⟨Host.printerOf ty, args⟩ = some w → w = 0

/-- The host whose answer is always the same. -/
def HostFunctions.answering (w : Int32) : HostFunctions :=
  fun _ call => if call.func = Host.trapName then none else some w

theorem HostFunctions.answering_aborts (w : Int32) : (answering w).TrapAborts := fun _ _ => rfl

theorem HostFunctions.answering_zero : (answering 0).PrintsZero := by
  intro calls ty args w answer
  rw [answering] at answer
  split at answer
  · cases answer
  · exact (Option.some.inj answer).symm

/-! ## Safe states -/

/-- Code that does no more than leave its function. -/
def Code.leaves : Code → Bool
  | [] | .ret :: _ => true
  | _ => false

theorem Code.leaves_iff {code : Code} :
    code.leaves = true ↔ code = [] ∨ ∃ rest, code = .ret :: rest := by
  fun_cases Code.leaves code <;> simp_all

namespace Typed

section

variable (p : Program)

/-- Call `k` is one of some function, and if that was made from a method, these locals hold words of
the types of its variables. -/
def Program.Bound (called : List String) (k : Nat) (locals : Table Int32) : Prop :=
  ∃ func, called[k]? = some func ∧
    ∀ c ∈ p.classes, ∀ m ∈ c.methods, func = methodSymbol c.name m.name →
      ∀ v ∈ m.variables, ∃ w, locals.get? v.name = some w ∧ p.Fits called v.ty w

/-- What comes next does not touch memory, or loads from a slot that has been filled, or stores to a
slot a word of its type. -/
def Program.Accesses (h : History) : Code → List Int32 → Prop
  | .load :: _, a :: _ =>
    a ≠ 0 ∧ ∃ f, p.IsSlot h.called a.toUInt32.toNat f ∧ a.toUInt32.toNat ∈ h.stored
  | .store :: _, w :: a :: _ =>
    a ≠ 0 ∧ ∃ f, p.IsSlot h.called a.toUInt32.toNat f ∧ p.Fits h.called f.ty w
  | _, _ => True

structure Program.Safe (s : State) (h : History) : Prop where
  globals : ∀ v ∈ p.globals, ∃ w, s.store.globals.get? v.name = some w ∧ p.Fits h.called v.ty w
  /-- In all frames, those that wait included. -/
  locals : List.Forall₂ (p.Bound h.called) h.active ((s.frame :: s.callers).map (·.locals))
  fields : ∀ a f, p.IsSlot h.called a f → a ∈ h.stored →
    p.Fits h.called f.ty (s.store.memory.word a)
  access : p.Accesses h s.frame.code s.frame.stack

/-- Call `k` is one of a constructor function, and is about to hand back `w`. -/
structure Program.HandsBack (s : State) (h : History) (k : Nat) (w : Int32) : Prop where
  active : h.active.head? = some k
  made : ∃ c ∈ p.classes, h.called[k]? = some (constructorSymbol c.name)
  leaves : s.frame.code = [] ∨ ∃ rest, s.frame.code = .ret :: rest
  top : s.frame.stack.head? = some w

instance (s : State) (h : History) (k : Nat) (w : Int32) : Decidable (p.HandsBack s h k w) :=
  decidable_of_iff (h.active.head? = some k ∧
      (∃ c ∈ p.classes, h.called[k]? = some (constructorSymbol c.name)) ∧
      s.frame.code.leaves = true ∧ s.frame.stack.head? = some w)
    ⟨fun ⟨active, made, leaves, top⟩ => ⟨active, made, Code.leaves_iff.1 leaves, top⟩,
      fun back => ⟨back.active, back.made, Code.leaves_iff.2 back.leaves, back.top⟩⟩

end

end Typed

/-! ## What is kept -/

/-- A program that runs on a host. -/
structure Watch extends Compiled where
  host : HostFunctions
  /-- Whether words are held to their types. -/
  typed : Prop
  aborts : typed → host.TrapAborts

/-- A call of a function and what waits for it. -/
structure Place where
  /-- The call, its function and whether that has a result. -/
  call : Nat
  func : String
  result : Bool
  /-- The calls that wait, and their frames. -/
  below : List Nat
  callers : List Frame

namespace Watch

section

variable (W : Watch)

/-- How far a run is looked at: as long as addresses are words, and until a printer answers with
something else than the absent value that the checker takes its answer for. -/
structure Allowed (h : History) : Prop where
  room : W.program.heapTop h.called ≤ 2 ^ 32
  kept : W.typed → W.host.PrintsZero ∨ ∀ w ∈ h.kept, w = 0

/-- What a printer answers is the absent value, if there is anyone to look at it. -/
def Heeds (rest : Code) : Prop := W.host.PrintsZero ∨ Code.drops rest = false

/-- Words have their types: globals, locals and the slots below `filled`, which are the ones that
have been stored to. -/
structure Held (filled : Nat) (h : History) (tables : List (Table Int32)) (store : Store) :
    Prop where
  globals : ∀ v ∈ W.program.globals,
    ∃ w, store.globals.get? v.name = some w ∧ W.program.Fits h.called v.ty w
  locals : List.Forall₂ (W.program.Bound h.called) h.active tables
  slots : ∀ a f, W.program.IsSlot h.called a f → a + 4 ≤ filled →
    a ∈ h.stored ∧ W.program.Fits h.called f.ty (store.memory.word a)
  stored : ∀ a ∈ h.stored, a + 4 ≤ filled

/-- The machine runs the call of a place.  The first free address is `base`, and the slots below
`filled` have been filled; in all functions but those that make objects, both are the top of the
heap. -/
structure Holds (place : Place) (base filled : Nat) (h : History) (locals : Table Int32)
    (store : Store) : Prop where
  active : h.active = place.call :: place.below
  func : h.called[place.call]? = some place.func
  settled : (∃ c ∈ W.program.classes, place.func = constructorSymbol c.name) ∨
    base = W.program.heapTop h.called ∧ filled = W.program.heapTop h.called
  free : store.globals.get? heap = some (addressWord base)
  held : W.typed → W.Held filled h (locals :: place.callers.map (·.locals)) store

/-- The machine stands before some code in a place, with some words on the stack. -/
def Here (place : Place) (base filled : Nat) (code : Code) (stack : List Int32) (s : State)
    (h : History) : Prop :=
  ∃ locals store, s = ⟨⟨code, stack, locals, place.result⟩, place.callers, store⟩ ∧
    W.Holds place base filled h locals store

/-- The machine stands there with no object half filled. -/
def At (place : Place) (code : Code) (stack : List Int32) (s : State) (h : History) : Prop :=
  W.Here place (W.program.heapTop h.called) (W.program.heapTop h.called) code stack s h

/-- The call of a place has come back with a word. -/
def Left (place : Place) (w : Int32) (s : State) (h : History) : Prop :=
  ∃ caller callers store, place.callers = caller :: callers ∧
    s = ⟨{ caller with stack := w :: caller.stack }, callers, store⟩ ∧ h.active = place.below ∧
      store.globals.get? heap = some (addressWord (W.program.heapTop h.called)) ∧
        (W.typed →
          W.Held (W.program.heapTop h.called) h (place.callers.map (·.locals)) store)

/-- What is to hold of each state of a run. -/
structure Proper (s : State) (h : History) : Prop where
  safe : W.typed → W.program.Safe s h
  handle : ∀ k w, W.program.HandsBack s h k w → w = addressWord (W.program.handle h.called k)
  settled : ∀ k func below, h.active = k :: below → h.called[k]? = some func →
    (∀ c ∈ W.program.classes, func ≠ constructorSymbol c.name) →
      W.At ⟨k, func, s.frame.result, below, s.callers⟩ s.frame.code s.frame.stack s h

/-- The machine has not come to where `rest` alone is left to run, below no frames but `callers`. -/
def Within (callers : List Frame) (rest : Code) (s : State) : Prop :=
  (s.callers = callers ∧ ∃ i code, s.frame.code = i :: code ∧ rest <:+ code) ∨
    ∃ frame frames, s.callers = frame :: (frames ++ callers)

/-- States are proper until `Q` holds, which it does not while code before `rest` is run. -/
def Keeps (callers : List Frame) (rest : Code) (Q : State → History → Prop) (n : Nat) (s : State)
    (h : History) : Prop :=
  Machine.Keeps W.target W.host W.Allowed (fun s h => W.Proper s h ∧ Within callers rest s) Q n s h

end

variable {W : Watch}

/-! ## Where a run has come to -/

theorem not_complete_of_within {callers : List Frame} {rest : Code} {s : State}
    (within : Within callers rest s) : ¬(s.frame.code = rest ∧ s.callers = callers) := by
  intro ⟨code, same⟩
  rcases within with ⟨-, i, code', split, suffix⟩ | ⟨frame, frames, deeper⟩
  · have length := suffix.length_le
    rw [← code, split, List.length_cons] at length
    omega
  · have length := congrArg List.length (same.symm.trans deeper)
    rw [List.length_cons, List.length_append] at length
    omega

theorem Within.mono {callers : List Frame} {rest rest' : Code} {s : State}
    (within : Within callers rest' s) (suffix : rest <:+ rest') : Within callers rest s := by
  rcases within with ⟨same, i, code, split, ahead⟩ | deeper
  · exact Or.inl ⟨same, i, code, split, suffix.trans ahead⟩
  · exact Or.inr deeper

/-- Wherever a function is called, what it does is done before the code behind the call. -/
theorem Within.of_call {frame : Frame} {callers : List Frame} {rest rest' : Code} {s : State}
    (within : Within (frame :: callers) rest' s) : Within callers rest s := by
  rcases within with ⟨same, -⟩ | ⟨top, frames, deeper⟩
  · exact Or.inr ⟨frame, [], same⟩
  · refine Or.inr ⟨top, frames ++ [frame], ?_⟩
    rw [deeper, List.append_assoc]
    rfl

theorem Allowed.down {h h' : History} (begins : h.Begins h') (allowed : W.Allowed h') :
    W.Allowed h where
  room := Nat.le_trans (Typed.Program.heapTop_le begins.called) allowed.room
  kept := fun typed => (allowed.kept typed).imp_right fun zero w mem =>
    zero w (begins.kept.subset mem)

/-! ## Changes of what is held -/

theorem bound_grow {called called' : List String} {k : Nat} {locals : Table Int32}
    (bound : W.program.Bound called k locals) (grown : called <+: called') :
    W.program.Bound called' k locals := by
  obtain ⟨func, found, vars⟩ := bound
  refine ⟨func, getElem?_of_prefix grown found, fun c hc m hm named v hv => ?_⟩
  obtain ⟨w, held, fits⟩ := vars c hc m hm named v hv
  exact ⟨w, held, fits.grow grown⟩

/-- No variable is kept in the scratch local. -/
theorem bound_scratch {called : List String} {k : Nat} {locals : Table Int32}
    (bound : W.program.Bound called k locals) (w : Int32) :
    W.program.Bound called k (locals.insert scratch w) := by
  obtain ⟨func, found, vars⟩ := bound
  refine ⟨func, found, fun c hc m hm named v hv => ?_⟩
  obtain ⟨x, held, fits⟩ := vars c hc m hm named v hv
  have differs : v.name ≠ scratch := (W.plain.bound c hc m hm v hv).ne_scratch
  exact ⟨x, by rw [Table.get?_insert, if_neg differs, held], fits⟩

theorem bound_own {called : List String} {k : Nat} {locals : Table Int32} {func : String}
    {scope : Scope} {own : List Param} (body : W.Body func scope own)
    (bound : W.program.Bound called k locals) (found : called[k]? = some func) {v : Param}
    (mem : v ∈ own) : ∃ w, locals.get? v.name = some w ∧ W.program.Fits called v.ty w := by
  obtain ⟨func', found', vars⟩ := bound
  cases found.symm.trans found'
  cases body with
  | entry => cases mem
  | method hc hm _ => exact vars _ hc _ hm rfl v mem

theorem bound_setOwn {called : List String} {k : Nat} {locals : Table Int32} {func : String}
    {scope : Scope} {own : List Param} (body : W.Body func scope own)
    (bound : W.program.Bound called k locals) (found : called[k]? = some func) {v : Param}
    (mem : v ∈ own) {w : Int32} (fits : W.program.Fits called v.ty w) :
    W.program.Bound called k (locals.insert v.name w) := by
  obtain ⟨func', found', vars⟩ := bound
  cases found.symm.trans found'
  refine ⟨func, found, fun c hc m hm named u hu => ?_⟩
  rw [Table.get?_insert]
  by_cases same : u.name = v.name
  · have mine : u ∈ own := by
      rw [body.own_eq hc hm named]
      exact hu
    have eq : u = v := List.inj_on_of_nodup_map body.distinct mine mem same
    rw [if_pos same, eq]
    exact ⟨w, rfl, fits⟩
  · rw [if_neg same]
    exact vars c hc m hm named u hu

namespace Held

variable {filled : Nat} {h : History} {locals : Table Int32} {tables : List (Table Int32)}
  {store : Store}

theorem setLocals (held : W.Held filled h (locals :: tables) store) {locals' : Table Int32}
    (bound : ∀ k, h.active.head? = some k → W.program.Bound h.called k locals →
      W.program.Bound h.called k locals') : W.Held filled h (locals' :: tables) store where
  globals := held.globals
  locals := by
    have frames := held.locals
    cases active : h.active with
    | nil =>
      rw [active] at frames
      cases frames
    | cons k below =>
      rw [active] at frames bound
      cases frames with
      | cons first rest => exact .cons (bound k rfl first) rest
  slots := held.slots
  stored := held.stored

theorem setGlobal (held : W.Held filled h tables store) {v : VarDef}
    (mem : v ∈ W.program.globals) {w : Int32} (fits : W.program.Fits h.called v.ty w) :
    W.Held filled h tables { store with globals := store.globals.insert v.name w } where
  globals := fun u hu => by
    show ∃ x, (store.globals.insert v.name w).get? u.name = some x ∧ _
    rw [Table.get?_insert]
    by_cases same : u.name = v.name
    · have eq : u = v := List.inj_on_of_nodup_map W.checked.vars.distinct hu mem same
      rw [if_pos same, eq]
      exact ⟨w, rfl, fits⟩
    · rw [if_neg same]
      exact held.globals u hu
  locals := held.locals
  slots := held.slots
  stored := held.stored

/-- The first free address is none of the variables of the program. -/
theorem setHeap (held : W.Held filled h tables store) (w : Int32) :
    W.Held filled h tables { store with globals := store.globals.insert heap w } where
  globals := fun v hv => by
    show ∃ x, (store.globals.insert heap w).get? v.name = some x ∧ _
    have differs : v.name ≠ heap := (W.plain.globals v hv).ne_heap
    rw [Table.get?_insert, if_neg differs]
    exact held.globals v hv
  locals := held.locals
  slots := held.slots
  stored := held.stored

/-- A store to a slot, be it the first one that has not been filled. -/
theorem setSlot (held : W.Held filled h tables store) {a filled' : Nat} {f : VarDef}
    (slot : W.program.IsSlot h.called a f) {w : Int32} (fits : W.program.Fits h.called f.ty w)
    (more : filled ≤ filled') (below : a + 4 ≤ filled')
    (others : ∀ b g, W.program.IsSlot h.called b g → b + 4 ≤ filled' → b = a ∨ b + 4 ≤ filled) :
    W.Held filled' { h with stored := h.stored ++ [a] } tables
      { store with memory := store.memory.putWord a w } where
  globals := held.globals
  locals := held.locals
  slots := fun b g other within => by
    rcases slot.apart other W.checked with ⟨rfl, rfl⟩ | apart
    · refine ⟨List.mem_append_right _ List.mem_cons_self, ?_⟩
      rw [Memory.word_putWord]
      exact fits
    · rcases others b g other within with rfl | old
      · omega
      · obtain ⟨mem, fits⟩ := held.slots b g other old
        refine ⟨List.mem_append_left _ mem, ?_⟩
        rw [Memory.word_putWord_of_apart (by omega)]
        exact fits
  stored := fun b mem => by
    rcases List.mem_append.1 mem with mem | mem
    · exact Nat.le_trans (held.stored b mem) more
    · rw [List.mem_singleton.1 mem]
      exact below

/-- A call of a function of the module. -/
theorem enter (held : W.Held filled h tables store) (func : String)
    (below : filled ≤ W.program.heapTop h.called)
    (bound : W.program.Bound (h.called ++ [func]) h.called.length locals) :
    W.Held filled (h.enter func) (locals :: tables) store where
  globals := fun v hv => by
    obtain ⟨w, found, fits⟩ := held.globals v hv
    exact ⟨w, found, fits.grow (List.prefix_append _ _)⟩
  locals := .cons bound (held.locals.imp fun k table h => bound_grow h (List.prefix_append _ _))
  slots := fun a f slot within => by
    have old := slot.of_concat (Nat.le_trans within below)
    obtain ⟨mem, fits⟩ := held.slots a f old within
    exact ⟨mem, fits.grow (List.prefix_append _ _)⟩
  stored := held.stored

theorem leave (held : W.Held filled h (locals :: tables) store) :
    W.Held filled { h with active := h.active.tail } tables store where
  globals := held.globals
  locals := by
    have frames := held.locals
    cases active : h.active with
    | nil =>
      rw [active] at frames
      cases frames
    | cons k below =>
      rw [active] at frames
      cases frames with
      | cons first rest => exact rest
  slots := held.slots
  stored := held.stored

/-- What the host is told and what it answers is held nowhere. -/
theorem hear (held : W.Held filled h tables store) (calls : List HostCall) (kept : List Int32) :
    W.Held filled { h with kept } tables { store with calls } :=
  ⟨held.globals, held.locals, held.slots, held.stored⟩

end Held

/-! ## Safe states -/

namespace Here

variable {place : Place} {base filled : Nat} {code : Code} {stack : List Int32} {s : State}
  {h : History}

theorem proper (here : W.Here place base filled code stack s h)
    (access : W.typed → W.program.Accesses h code stack)
    (handle : ∀ k w, W.program.HandsBack s h k w →
      w = addressWord (W.program.handle h.called k)) : W.Proper s h := by
  obtain ⟨locals, store, rfl, holds⟩ := here
  refine ⟨fun typed => ?_, handle, fun k func below active found other => ?_⟩
  · have held := holds.held typed
    exact ⟨held.globals, held.locals,
      fun a f slot mem => (held.slots a f slot (held.stored a mem)).2, access typed⟩
  · have same := holds.active.symm.trans active
    obtain ⟨rfl, rfl⟩ := List.cons.inj same
    cases holds.func.symm.trans found
    rcases holds.settled with ⟨c, mem, named⟩ | ⟨rfl, rfl⟩
    · exact absurd named (other c mem)
    · exact ⟨locals, store, rfl, active, found, Or.inr ⟨rfl, rfl⟩, holds.free, holds.held⟩

end Here

end Watch
end ClassLang
