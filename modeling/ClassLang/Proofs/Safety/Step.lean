/-
One instruction after the other.

Each lemma is about the machine standing before some instruction: if it keeps what has to be kept
from where that takes it, it keeps it from here.  The lemmas are applied in the order in which the
code is run.
-/
import ClassLang.Proofs.Machine.Exec
import ClassLang.Proofs.Safety.Invariant

namespace ClassLang

open Machine (Frame History Outcome State Store)

/-- Instructions that neither touch memory nor leave the function. -/
def Instr.isQuiet : Instr → Bool
  | .load | .store | .ret => false
  | _ => true

theorem Host.isPrinter_printerOf (ty : Ty) : Host.isPrinter (Host.printerOf ty) = true := by
  cases ty <;> rfl

namespace Watch

variable {W : Watch} {place : Place} {base filled n : Nat} {code rest : Code} {stack : List Int32}
  {s : State} {h : History} {Q Q' : State → History → Prop}

/-! ## Parts of a run -/

namespace Keeps

variable {callers : List Frame} {rest' : Code}

/-- Code, and then the code behind it. -/
theorem bind (keeps : W.Keeps callers rest' Q n s h) (ahead : rest <:+ rest')
    (go : ∀ t h', Q t h' → W.Keeps callers rest Q' n t h') : W.Keeps callers rest Q' n s h :=
  Machine.Keeps.bind keeps (fun _ _ here => ⟨here.1, here.2.mono ahead⟩) go

/-- A call, and then the code behind it. -/
theorem bind_call {frame : Frame} (keeps : W.Keeps (frame :: callers) rest' Q n s h)
    (go : ∀ t h', Q t h' → W.Keeps callers rest Q' n t h') : W.Keeps callers rest Q' n s h :=
  Machine.Keeps.bind keeps (fun _ _ here => ⟨here.1, here.2.of_call⟩) go

end Keeps

/-! ## What is held -/

namespace Holds

variable {locals : Table Int32} {store : Store}

theorem bound (holds : W.Holds place base filled h locals store) (typed : W.typed) :
    W.program.Bound h.called place.call locals := by
  have frames := (holds.held typed).locals
  rw [holds.active] at frames
  cases frames with
  | cons first _ => exact first

theorem setLocals (holds : W.Holds place base filled h locals store) {locals' : Table Int32}
    (bound : W.typed → W.program.Bound h.called place.call locals →
      W.program.Bound h.called place.call locals') :
    W.Holds place base filled h locals' store where
  active := holds.active
  func := holds.func
  settled := holds.settled
  free := holds.free
  held := fun typed => (holds.held typed).setLocals fun k active first => by
    rw [holds.active] at active
    cases active
    exact bound typed first

theorem scratch (holds : W.Holds place base filled h locals store) (w : Int32) :
    W.Holds place base filled h (locals.insert ClassLang.scratch w) store :=
  holds.setLocals fun _ bound => bound_scratch bound w

theorem hear (holds : W.Holds place base filled h locals store) (calls : List HostCall)
    (kept : List Int32) : W.Holds place base filled { h with kept } locals { store with calls } :=
  ⟨holds.active, holds.func, holds.settled, holds.free, fun typed => (holds.held typed).hear _ _⟩

end Holds

namespace Here

theorem ready {i : Instr} (here : W.Here place base filled (i :: code) stack s h)
    (ahead : rest <:+ code)
    (access : W.typed → W.Allowed h → W.program.Accesses h (i :: code) stack)
    (handle : ∀ k w, W.program.HandsBack s h k w →
      w = addressWord (W.program.handle h.called k)) (allowed : W.Allowed h) :
    W.Proper s h ∧ Within place.callers rest s := by
  refine ⟨here.proper (fun typed => access typed allowed) handle, ?_⟩
  obtain ⟨locals, store, rfl, -⟩ := here
  exact Or.inl ⟨rfl, i, code, rfl, ahead⟩

/-- Only a return hands back. -/
theorem eq_ret {i : Instr} (here : W.Here place base filled (i :: code) stack s h) {k : Nat}
    {w : Int32} (back : W.program.HandsBack s h k w) : i = .ret := by
  obtain ⟨locals, store, rfl, -⟩ := here
  rcases back.leaves with none | ⟨code', ret⟩
  · cases none
  · exact (List.cons.inj ret).1

theorem found (here : W.Here place base filled code stack s h) :
    h.called[place.call]? = some place.func := by
  obtain ⟨locals, store, rfl, holds⟩ := here
  exact holds.func

/-- A call that hands back an object is the one that runs. -/
theorem call_eq (here : W.Here place base filled code stack s h) {k : Nat} {w : Int32}
    (back : W.program.HandsBack s h k w) : place.call = k := by
  obtain ⟨locals, store, rfl, holds⟩ := here
  have active := back.active
  rw [holds.active] at active
  exact Option.some.inj active

theorem func_eq (here : W.Here place base filled code stack s h) {k : Nat} {w : Int32}
    (back : W.program.HandsBack s h k w) :
    ∃ c ∈ W.program.classes, place.func = constructorSymbol c.name := by
  obtain ⟨c, mem, found⟩ := back.made
  rw [← here.call_eq back] at found
  exact ⟨c, mem, Option.some.inj (here.found.symm.trans found)⟩

theorem quiet_ready {i : Instr} (here : W.Here place base filled (i :: code) stack s h)
    (quiet : i.isQuiet = true) (ahead : rest <:+ code) (allowed : W.Allowed h) :
    W.Proper s h ∧ Within place.callers rest s := by
  refine here.ready ahead (fun _ _ => ?_) (fun k w back => ?_) allowed
  · cases i with
    | load | store => cases quiet
    | _ => trivial
  · cases here.eq_ret back
    cases quiet

theorem quiet {i : Instr} (here : W.Here place base filled (i :: code) stack s h)
    (quiet : i.isQuiet = true) (ahead : rest <:+ code)
    (go : ∀ t, s.step W.target W.host = .next t →
      W.Keeps place.callers rest Q n t (h.after s t)) : W.Keeps place.callers rest Q n s h :=
  Machine.Keeps.next (here.quiet_ready quiet ahead) fun _ => go

theorem quiet_to {i : Instr} (here : W.Here place base filled (i :: code) stack s h)
    (quiet : i.isQuiet = true) (ahead : rest <:+ code) {t : State}
    (step : s.step W.target W.host = .next t) (same : h.after s t = h)
    (go : W.Keeps place.callers rest Q n t h) : W.Keeps place.callers rest Q n s h := by
  refine here.quiet quiet ahead fun t' step' => ?_
  cases step.symm.trans step'
  rw [same]
  exact go

/-! ## Words on the stack -/

theorem const {w : Int32} (here : W.Here place base filled (.const w :: code) stack s h)
    (ahead : rest <:+ code)
    (go : ∀ t, W.Here place base filled code (w :: stack) t h →
      W.Keeps place.callers rest Q n t h) : W.Keeps place.callers rest Q n s h := by
  refine here.quiet rfl ahead fun t step => ?_
  obtain ⟨locals, store, rfl, holds⟩ := here
  cases step
  exact go _ ⟨locals, store, rfl, holds⟩

theorem binary {i : Instr} {op : Int32 → Int32 → Option Int32}
    (known : Machine.binary? i = some op) {a b : Int32}
    (here : W.Here place base filled (i :: code) (b :: a :: stack) s h) (ahead : rest <:+ code)
    (go : ∀ t w, op a b = some w → W.Here place base filled code (w :: stack) t h →
      W.Keeps place.callers rest Q n t h) : W.Keeps place.callers rest Q n s h := by
  have quiet : i.isQuiet = true := by
    cases i with
    | load | store | ret => cases known
    | _ => rfl
  refine here.quiet quiet ahead fun t step => ?_
  obtain ⟨locals, store, rfl, holds⟩ := here
  have same : h.after ⟨⟨i :: code, b :: a :: stack, locals, place.result⟩, place.callers, store⟩ t =
      h := by
    cases i with
    | store | ret | call => cases known
    | _ => rfl
  rw [Machine.Reaches.step_binary known] at step
  rw [same]
  split at step
  · next w value =>
    cases step
    exact go _ w value ⟨locals, store, rfl, holds⟩
  · cases step

theorem nop (here : W.Here place base filled (.nop :: code) stack s h) (ahead : rest <:+ code)
    (go : ∀ t, W.Here place base filled code stack t h → W.Keeps place.callers rest Q n t h) :
    W.Keeps place.callers rest Q n s h := by
  refine here.quiet rfl ahead fun t step => ?_
  obtain ⟨locals, store, rfl, holds⟩ := here
  cases step
  exact go _ ⟨locals, store, rfl, holds⟩

theorem drop {w : Int32}
    (here : W.Here place base filled (.localSet scratch :: code) (w :: stack) s h)
    (ahead : rest <:+ code)
    (go : ∀ t, W.Here place base filled code stack t h → W.Keeps place.callers rest Q n t h) :
    W.Keeps place.callers rest Q n s h := by
  refine here.quiet rfl ahead fun t step => ?_
  obtain ⟨locals, store, rfl, holds⟩ := here
  cases step
  exact go _ ⟨_, store, rfl, holds.scratch w⟩

theorem scratchGet (here : W.Here place base filled (.localGet scratch :: code) stack s h)
    (ahead : rest <:+ code)
    (go : ∀ t w, W.Here place base filled code (w :: stack) t h →
      W.Keeps place.callers rest Q n t h) : W.Keeps place.callers rest Q n s h := by
  refine here.quiet rfl ahead fun t step => ?_
  obtain ⟨locals, store, rfl, holds⟩ := here
  cases found : locals.get? scratch with
  | none => simp [State.step, State.exec, State.setCode, found] at step
  | some w =>
    simp only [State.step, State.exec, State.setCode, found, Outcome.next.injEq] at step
    subst step
    exact go _ w ⟨locals, store, rfl, holds⟩

theorem branch {yes : Code} {no : Option Code} {w : Int32}
    (here : W.Here place base filled (.branch yes no :: code) (w :: stack) s h)
    (ahead : rest <:+ code)
    (go : ∀ t, W.Here place base filled ((if w ≠ 0 then yes else no.getD []) ++ code) stack t h →
      W.Keeps place.callers rest Q n t h) : W.Keeps place.callers rest Q n s h := by
  refine here.quiet rfl ahead fun t step => ?_
  obtain ⟨locals, store, rfl, holds⟩ := here
  cases step
  exact go _ ⟨locals, store, rfl, holds⟩

/-! ## Variables -/

section

variable {scope : Scope} {own : List Param} (body : W.Body place.func scope own)

include body

theorem localGet {v : Param} (mem : v ∈ own)
    (here : W.Here place base filled (.localGet v.name :: code) stack s h) (ahead : rest <:+ code)
    (go : ∀ t w, W.Here place base filled code (w :: stack) t h →
      (W.typed → W.program.Fits h.called v.ty w) → W.Keeps place.callers rest Q n t h) :
    W.Keeps place.callers rest Q n s h := by
  refine here.quiet rfl ahead fun t step => ?_
  obtain ⟨locals, store, rfl, holds⟩ := here
  cases found : locals.get? v.name with
  | none => simp [State.step, State.exec, State.setCode, found] at step
  | some w =>
    simp only [State.step, State.exec, State.setCode, found, Outcome.next.injEq] at step
    subst step
    refine go _ w ⟨locals, store, rfl, holds⟩ fun typed => ?_
    obtain ⟨x, held, fits⟩ := bound_own body (holds.bound typed) holds.func mem
    cases found.symm.trans held
    exact fits

theorem localSet {v : Param} (mem : v ∈ own) {w : Int32}
    (fits : W.typed → W.program.Fits h.called v.ty w)
    (here : W.Here place base filled (.localSet v.name :: code) (w :: stack) s h)
    (ahead : rest <:+ code)
    (go : ∀ t, W.Here place base filled code stack t h → W.Keeps place.callers rest Q n t h) :
    W.Keeps place.callers rest Q n s h := by
  refine here.quiet rfl ahead fun t step => ?_
  obtain ⟨locals, store, rfl, holds⟩ := here
  cases step
  refine go _ ⟨_, store, rfl, holds.setLocals fun typed bound => ?_⟩
  exact bound_setOwn body bound holds.func mem (fits typed)

end

theorem globalGet {v : VarDef} (mem : v ∈ W.program.globals)
    (here : W.Here place base filled (.globalGet v.name :: code) stack s h) (ahead : rest <:+ code)
    (go : ∀ t w, W.Here place base filled code (w :: stack) t h →
      (W.typed → W.program.Fits h.called v.ty w) → W.Keeps place.callers rest Q n t h) :
    W.Keeps place.callers rest Q n s h := by
  refine here.quiet rfl ahead fun t step => ?_
  obtain ⟨locals, store, rfl, holds⟩ := here
  cases found : store.globals.get? v.name with
  | none => simp [State.step, State.exec, State.setCode, found] at step
  | some w =>
    simp only [State.step, State.exec, State.setCode, found, Outcome.next.injEq] at step
    subst step
    refine go _ w ⟨locals, store, rfl, holds⟩ fun typed => ?_
    obtain ⟨x, held, fits⟩ := (holds.held typed).globals v mem
    cases found.symm.trans held
    exact fits

theorem globalSet {v : VarDef} (mem : v ∈ W.program.globals) {w : Int32}
    (fits : W.typed → W.program.Fits h.called v.ty w)
    (here : W.Here place base filled (.globalSet v.name :: code) (w :: stack) s h)
    (ahead : rest <:+ code)
    (go : ∀ t, W.Here place base filled code stack t h → W.Keeps place.callers rest Q n t h) :
    W.Keeps place.callers rest Q n s h := by
  refine here.quiet rfl ahead fun t step => ?_
  obtain ⟨locals, store, rfl, holds⟩ := here
  cases step
  have differs : heap ≠ v.name := (W.plain.globals v mem).ne_heap.symm
  refine go _ ⟨locals, _, rfl, holds.active, holds.func, holds.settled, ?_, fun typed => ?_⟩
  · exact (Table.get?_insert ..).trans ((if_neg differs).trans holds.free)
  · exact (holds.held typed).setGlobal mem (fits typed)

/-- The first free address is known. -/
theorem heapGet (here : W.Here place base filled (.globalGet heap :: code) stack s h)
    (ahead : rest <:+ code)
    (go : ∀ t, W.Here place base filled code (addressWord base :: stack) t h →
      W.Keeps place.callers rest Q n t h) : W.Keeps place.callers rest Q n s h := by
  refine here.quiet rfl ahead fun t step => ?_
  obtain ⟨locals, store, rfl, holds⟩ := here
  simp only [State.step, State.exec, State.setCode, holds.free, Outcome.next.injEq] at step
  subst step
  exact go _ ⟨locals, store, rfl, holds⟩

/-- A function that makes objects moves it. -/
theorem heapSet {c : Typed.Class} (mem : c ∈ W.program.classes)
    (named : place.func = constructorSymbol c.name) {base' : Nat}
    (here : W.Here place base filled (.globalSet heap :: code) (addressWord base' :: stack) s h)
    (ahead : rest <:+ code)
    (go : ∀ t, W.Here place base' filled code stack t h → W.Keeps place.callers rest Q n t h) :
    W.Keeps place.callers rest Q n s h := by
  refine here.quiet rfl ahead fun t step => ?_
  obtain ⟨locals, store, rfl, holds⟩ := here
  cases step
  refine go _ ⟨locals, _, rfl, holds.active, holds.func, Or.inl ⟨c, mem, named⟩, ?_,
    fun typed => ?_⟩
  · exact (Table.get?_insert ..).trans (if_pos rfl)
  · exact (holds.held typed).setHeap _

/-! ## Leaving a function -/

/-- A return hands back the word on top of the stack.  If the function makes objects, that is the
object of the call. -/
theorem ret {w : Int32} (here : W.Here place base filled (.ret :: code) (w :: stack) s h)
    (result : place.result = true) (ahead : rest <:+ code)
    (settled : base = W.program.heapTop h.called ∧ filled = W.program.heapTop h.called)
    (made : ∀ c ∈ W.program.classes, place.func = constructorSymbol c.name →
      w = addressWord (W.program.handle h.called place.call))
    (go : ∀ t, W.Left place w t { h with active := place.below } →
      W.Keeps place.callers rest Q n t { h with active := place.below }) :
    W.Keeps place.callers rest Q n s h := by
  refine Machine.Keeps.next (here.ready ahead (fun _ _ => trivial) fun k x back => ?_)
    fun _ t step => ?_
  · obtain ⟨c, mem, named⟩ := here.func_eq back
    have same := here.call_eq back
    obtain ⟨locals, store, rfl, holds⟩ := here
    cases back.top
    rw [← same]
    exact made c mem named
  · obtain ⟨locals, store, rfl, holds⟩ := here
    have left : h.active.tail = place.below := by
      rw [holds.active]
      rfl
    obtain ⟨rfl, rfl⟩ := settled
    cases waits : place.callers with
    | nil =>
      simp [State.step, State.exec, State.setCode, State.leave, State.pop, result, waits] at step
    | cons caller callers =>
      simp only [State.step, State.exec, State.setCode, State.leave, State.pop, result, waits,
        if_true, Outcome.next.injEq] at step
      subst step
      rw [← waits]
      show W.Keeps place.callers rest Q n _ { h with active := h.active.tail }
      rw [left]
      refine go _ ⟨caller, callers, store, waits, rfl, rfl, holds.free, fun typed => ?_⟩
      have held := (holds.held typed).leave
      rwa [left] at held

end Here

namespace At

/-- What a built-in answers is a number, or else the absent value as far as anyone looks. -/
theorem builtin {name : String} {signature : Signature} {tys : List Ty} {ws : List Int32}
    {params : Nat} {returns : Bool} (found : Host.builtins.get? name = some signature)
    (passed : Passes signature.params tys) (count : ws.length = tys.length)
    (here : W.At place (.call (Host.target name tys) params returns :: code) (ws.reverse ++ stack)
      s h) (ahead : rest <:+ code)
    (go : ∀ t w kept, W.At place code (w :: stack) t { h with kept } →
      h.Begins { h with kept } →
      (W.typed → (signature.ret = .none → W.Heeds code) →
        W.program.Fits h.called signature.ret w) →
      W.Keeps place.callers rest Q n t { h with kept }) :
    W.Keeps place.callers rest Q n s h := by
  obtain ⟨i, known, arity, hasResult, answers⟩ := Host.exists_target found passed
  refine here.quiet rfl ahead fun t step => ?_
  obtain ⟨locals, store, rfl, holds⟩ := here
  rw [Machine.Reaches.step_hostCall known ws (count.trans arity.symm)] at step
  cases answer : W.host store.calls ⟨Host.target name tys, ws⟩ with
  | none => simp [answer] at step
  | some w =>
    simp only [answer, hasResult, if_true, Outcome.next.injEq] at step
    subst step
    simp only [History.after, known, Option.isNone_some, Bool.false_eq_true, if_false,
      List.head?_cons, Option.toList_some]
    refine Machine.Keeps.assume fun allowed => go _ w _ ⟨locals, _, rfl, holds.hear _ _⟩
      ⟨List.prefix_refl _, List.prefix_append _ _⟩ fun typed heeds => ?_
    rcases answers with number | ⟨absent, ty, printer⟩
    · rw [number]
      trivial
    · rw [absent]
      show w = 0
      rw [printer] at answer allowed
      rcases allowed.kept typed with zero | zero
      · exact zero _ ty ws w answer
      · rcases heeds absent with zero | looked
        · exact zero _ ty ws w answer
        · refine zero w (List.mem_append_right _ ?_)
          rw [Host.isPrinter_printerOf, looked]
          exact List.mem_singleton.2 rfl

end At
end Watch
end ClassLang
