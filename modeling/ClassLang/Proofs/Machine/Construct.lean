/-
Running the function that makes an object.

The object starts at the first free address.  Its slots are filled and that address moves past them
before the constructor of the class is called, if it has one.  So what the constructor is given is a
whole object, and what it makes itself lies behind it.  Meanwhile the address of the object waits on
the stack, and whatever the constructor hands back, it is the address that the caller gets.
-/
import ClassLang.Proofs.Compile
import ClassLang.Proofs.Lowering.Compiled
import ClassLang.Proofs.Machine.Exec

namespace ClassLang
namespace Machine

/-! ## What making an object changes -/

/-- In `after` there is one object more than in `before`, one of this class that starts at `base` and
has the initial values of its fields.  Nothing else has changed but the first free address. -/
structure Makes (c : Typed.Class) (base : Nat) (before after : Store) : Prop where
  free : after.globals.get? heap = some (addressWord (base + 4 * c.fields.length))
  globals : ∀ name, name ≠ heap → after.globals.get? name = before.globals.get? name
  slots : ∀ (i : Nat) field, c.fields[i]? = some field →
    after.memory.word (base + 4 * i) = field.value.word
  bytes : ∀ a, a < base ∨ base + 4 * c.fields.length ≤ a →
    after.memory.byte a = before.memory.byte a
  size : after.memory.size = before.memory.size
  calls : after.calls = before.calls

def Store.make (store : Store) (c : Typed.Class) (base : Nat) : Store :=
  { store with
    globals := store.globals.insert heap (addressWord (base + 4 * c.fields.length))
    memory := store.memory.putWords base (c.fields.map (·.value.word)) }

theorem Store.makes_make (store : Store) (c : Typed.Class) (base : Nat) :
    Makes c base store (store.make c base) where
  free := by rw [make, Table.get?_insert, if_pos rfl]
  globals name other := by rw [make, Table.get?_insert, if_neg other]
  slots i field found := Memory.word_putWords (by rw [List.getElem?_map, found]; rfl)
  bytes a outside := Memory.byte_putWords_of_outside (by rwa [List.length_map])
  size := Memory.size_putWords ..
  calls := rfl

/-! ## Running the code -/

/-- The frame before a call of a function with one argument, after which it goes on like this. -/
def Frame.calling (frame : Frame) (symbol : String) (w : Int32) : Frame :=
  { frame with code := .call symbol 1 true :: frame.code, stack := w :: frame.stack }

def Frame.idle : Frame := ⟨[], [], .ofList [], false⟩

/-- A blank page, and the first free address as it is in the beginning. -/
def Store.blank : Store := ⟨.ofList [(heap, heapStart)], .blank, []⟩

/-- A function has come back, with this word, to the frame that has waited for it. -/
def State.back (w : Int32) (caller : Frame) (callers : List Frame) (store : Store) : State :=
  ⟨{ caller with stack := w :: caller.stack }, callers, store⟩

end Machine

open Machine (Frame Makes Outcome Reaches State Store)

namespace Typed

section

variable {m : Module} {host : HostFunctions} {Q : State → Prop} {X : Outcome → Prop}
  {code : Code} {stack : List Int32} {locals : Table Int32} {result : Bool} {callers : List Frame}
  {c : Class} {base : Nat}

/-- The slots of the remaining fields are filled, one after the other. -/
theorem reaches_initFields (distinct : (c.fields.map VarDef.name).Nodup)
    {done rest : List VarDef} (split : c.fields = done ++ rest) {init : Code}
    (h : initFields c.name c.layout rest = .ok init) {store : Store}
    (free : store.globals.get? heap = some (addressWord base))
    (room : base + 4 * c.fields.length ≤ store.memory.size)
    (small : base + 4 * c.fields.length ≤ 2 ^ 32)
    (after : Reaches m host Q X ⟨⟨code, stack, locals, result⟩, callers,
      { store with memory :=
        store.memory.putWords (base + 4 * done.length) (rest.map (·.value.word)) }⟩) :
    Reaches m host Q X ⟨⟨init ++ code, stack, locals, result⟩, callers, store⟩ := by
  induction rest generalizing done init store with
  | nil =>
    cases h
    exact after
  | cons f rest ih =>
    have here : c.fields[done.length]? = some f := by
      rw [split, List.getElem?_append_right (Nat.le_refl _), Nat.sub_self]
      rfl
    rw [initFields] at h
    split at h
    · next offset lies =>
      simp only [bind_eq_ok, pure_eq_ok] at h
      obtain ⟨code', hrest, rfl⟩ := h
      have eq := Class.offset_eq distinct here lies
      have count : c.fields.length = done.length + (rest.length + 1) := by
        rw [split, List.length_append, List.length_cons]
      have sum : addressWord base + offset.toInt32 = addressWord (base + 4 * done.length) := by
        rw [eq, addressWord_add]
      have address : (addressWord (base + 4 * done.length)).toUInt32.toNat =
          base + 4 * done.length := toNat_addressWord (by omega)
      have within : (addressWord (base + 4 * done.length)).toUInt32.toNat + 4 ≤
          store.memory.size := by omega
      refine .globalGet free (.const (.binary rfl (congrArg some sum)
        (.const (.storeWord within ?_))))
      rw [address]
      have split' : c.fields = (done ++ [f]) ++ rest := by rw [split, List.append_assoc]; rfl
      have next : base + 4 * (done ++ [f]).length = base + 4 * done.length + 4 := by
        rw [List.length_append, List.length_singleton]
        omega
      refine ih split' hrest free room ?_
      rw [next]
      exact after
    · cases h

/-- The function that makes an object, up to where the constructor of the class would be called. -/
theorem Class.reaches_make (distinct : (c.fields.map VarDef.name).Nodup) {fields : Code}
    (filled : initFields c.name c.layout c.fields = .ok fields) {store : Store}
    (free : store.globals.get? heap = some (addressWord base))
    (room : base + 4 * c.fields.length ≤ store.memory.size)
    (small : base + 4 * c.fields.length ≤ 2 ^ 32) (runs : Bool)
    (after : Reaches m host Q X ⟨⟨code,
      (if runs then [addressWord base] else []) ++ addressWord base :: stack, locals, result⟩,
      callers, store.make c base⟩) :
    Reaches m host Q X ⟨⟨fields ++ ([Instr.globalGet heap] ++
      ((if runs then [Instr.globalGet heap] else []) ++
        ([Instr.globalGet heap, .const c.layout.size.toInt32, .add, .globalSet heap] ++ code))),
      stack, locals, result⟩, callers, store⟩ := by
  have count : c.layout.fields.length = c.fields.length := List.length_map _
  have sum : addressWord base + c.layout.size.toInt32 =
      addressWord (base + 4 * c.fields.length) := by
    rw [Layout.size_toInt32, count, addressWord_add]
  refine reaches_initFields distinct (List.nil_append _).symm filled free room small ?_
  cases runs with
  | false =>
    exact .globalGet free (.globalGet free (.const (.binary rfl (congrArg some sum)
      (.globalSet after))))
  | true =>
    exact .globalGet free (.globalGet free (.globalGet free (.const
      (.binary rfl (congrArg some sum) (.globalSet after)))))

end

/-! ## The function as a whole -/

/-- The frame of the function that makes an object while the constructor of the class runs. -/
def waitingAt (base : Nat) : Frame where
  code := [.localSet scratch, .ret]
  stack := [addressWord base]
  locals := .ofList [(scratch, 0)]
  result := true

section

variable {m : Module} {host : HostFunctions} {caller : Frame} {callers : List Frame}
  {store : Store} {c : Class} {base : Nat} {fields : Code}

theorem Class.gets_back (distinct : (c.fields.map VarDef.name).Nodup)
    (filled : initFields c.name c.layout c.fields = .ok fields)
    (free : store.globals.get? heap = some (addressWord base))
    (room : base + 4 * c.fields.length ≤ store.memory.size)
    (small : base + 4 * c.fields.length ≤ 2 ^ 32) :
    State.Gets m host ⟨.enter (c.constructFunc fields false) [], caller :: callers, store⟩
      (.back (addressWord base) caller callers (store.make c base)) := by
  refine Reaches.gets ?_
  show Reaches _ _ _ _ ⟨⟨(c.constructFunc fields false).body, [], _, true⟩, _, store⟩
  rw [constructFunc_body]
  exact reaches_make distinct filled free room small false (.ret (.here rfl))

theorem Class.gets_call (distinct : (c.fields.map VarDef.name).Nodup)
    (filled : initFields c.name c.layout c.fields = .ok fields)
    (free : store.globals.get? heap = some (addressWord base))
    (room : base + 4 * c.fields.length ≤ store.memory.size)
    (small : base + 4 * c.fields.length ≤ 2 ^ 32) :
    State.Gets m host ⟨.enter (c.constructFunc fields true) [], caller :: callers, store⟩
      ⟨(waitingAt base).calling (methodSymbol c.name Source.constructorName) (addressWord base),
        caller :: callers, store.make c base⟩ := by
  refine Reaches.gets ?_
  show Reaches _ _ _ _ ⟨⟨(c.constructFunc fields true).body, [], _, true⟩, _, store⟩
  rw [constructFunc_body]
  exact reaches_make distinct filled free room small true (.here rfl)

/-- What the constructor hands back is put away, and the address is handed back. -/
theorem gets_back_of_waiting (r : Int32) :
    State.Gets m host (.back r (waitingAt base) (caller :: callers) store)
      (.back (addressWord base) caller callers store) :=
  Reaches.gets (.localSet (.ret (.here rfl)))

/-- Where the name of the constructor stands for its function, that function is entered. -/
theorem Method.step_calling {cls : String} {method : Method} {self : Param}
    (params : method.params = [self]) {code : Code}
    (found : m.functions.find? (·.name = some (methodSymbol cls method.name)) =
      some (method.func cls code)) (frame : Frame) (w : Int32) :
    State.step m host ⟨frame.calling (methodSymbol cls method.name) w, callers, store⟩ =
      .next ⟨.enter (method.func cls code) [w], frame :: callers, store⟩ := by
  have count : [w].length = (method.func cls code).params.length := by
    rw [func, params]
    rfl
  exact Reaches.step_call (import?_methodSymbol cls method.name) found [w] count

end

end Typed

namespace Source

/-- Called where the first free address is `base`, the function of a class makes an object there and
hands back its address.  If the class has a constructor, this is called when the object has been
made, with the address, and whatever it hands back, on whatever store, the caller gets the
address. -/
theorem Program.construct_makes {p : Program} {tp : Typed.Program} {scope : Scope}
    (accepted : p.check = .ok (tp, scope)) :
    ∃ laid m, scope.withLayouts tp = .ok laid ∧ p.toModule = .ok m ∧
      ∀ c ∈ tp.classes, ∃ f ∈ m.functions,
        c.lowerConstruct (laid.enterClass c.name) = .ok f ∧
        f.name = some (constructorSymbol c.name) ∧
        ∀ host (before : Store) base, before.globals.get? heap = some (addressWord base) →
          base + 4 * c.fields.length < 2 ^ 32 →
          base + 4 * c.fields.length ≤ before.memory.size →
          ∃ made, Makes c base before made ∧ ∀ caller callers,
            ((∀ method ∈ c.methods, method.isConstructor = false) →
              State.Gets m host ⟨.enter f [], caller :: callers, before⟩
                (.back (addressWord base) caller callers made)) ∧
            ∀ method ∈ c.methods, method.isConstructor = true → ∃ waiting : Frame,
              State.Gets m host ⟨.enter f [], caller :: callers, before⟩
                ⟨waiting.calling (methodSymbol c.name method.name) (addressWord base),
                  caller :: callers, made⟩ ∧
              (∃ g ∈ m.functions,
                (∀ b, (method.lower (laid.enterClass c.name) c.name).run b = .ok g .zero) ∧
                ((m.functions.map Func.name).Nodup →
                  State.step m host
                    ⟨waiting.calling (methodSymbol c.name method.name) (addressWord base),
                      caller :: callers, made⟩ =
                    .next ⟨.enter g [addressWord base], waiting :: caller :: callers, made⟩)) ∧
              ∀ r after, State.Gets m host (.back r waiting (caller :: callers) after)
                (.back (addressWord base) caller callers after) := by
  obtain ⟨laid, m, pass, compiled, checked, lays, lowers⟩ := exists_lowered accepted
  refine ⟨laid, m, pass, compiled, fun c mem => ?_⟩
  obtain ⟨fields, filled, made, inModule⟩ := lowers.exists_construct checked lays mem
  obtain ⟨info, shows, -⟩ := checked.classes.found c mem
  refine ⟨_, inModule, made, rfl, fun host before base free small room => ?_⟩
  refine ⟨before.make c base, before.makes_make c base, fun caller callers => ⟨?_, ?_⟩⟩
  · intro ordinary
    have runs : c.methods.any Typed.Method.isConstructor = false := by
      rw [List.any_eq_false]
      exact fun method hm => Bool.eq_false_iff.1 (ordinary method hm)
    rw [runs]
    exact Typed.Class.gets_back shows.fields.distinct filled free room (Nat.le_of_lt small)
  · intro method hm isConstructor
    have runs : c.methods.any Typed.Method.isConstructor = true :=
      List.any_eq_true.2 ⟨method, hm, isConstructor⟩
    have named : method.name = constructorName := of_decide_eq_true isConstructor
    obtain ⟨inner, code, -, -, hg, run⟩ := lowers.exists_function checked mem hm
    refine ⟨Typed.waitingAt base, ?_, ⟨_, hg, run, fun apart => ?_⟩, fun r after => ?_⟩
    · rw [runs, named]
      exact Typed.Class.gets_call shows.fields.distinct filled free room (Nat.le_of_lt small)
    · have params := checked.constructor_params mem hm isConstructor
      exact Typed.Method.step_calling params (find?_of_mem apart hg) _ _
    · exact Typed.gets_back_of_waiting r

/-- Objects without a constructor, and objects whose constructor makes one of these. -/
def Program.shelves : Program where
  globals := []
  classes := [
    { name := "Box"
      fields := [⟨"open", .bool, .bool true⟩, ⟨"n", .int, .int 7⟩, ⟨"inner", .object "Box", .none⟩]
      methods := [] },
    { name := "Shelf"
      fields := [⟨"box", .object "Box", .none⟩]
      methods := [
        { name := constructorName
          params := [⟨"self", .object "Shelf"⟩]
          ret := .none
          definitions := []
          statements := [.assign (.field (.var "self") "box") (.call "Box" [])] }] }]
  body := []

/-- Both functions are called on a blank page, by a frame with nothing left to do. -/
theorem Program.construct_makes_shelves :
    ∃ m, shelves.toModule = .ok m ∧
      (∃ f ∈ m.functions, f.name = some (constructorSymbol "Box") ∧ ∃ made : Store,
        made.globals.get? heap = some (addressWord 16) ∧ made.memory.word 4 = 1 ∧
        made.memory.word 8 = 7 ∧ made.memory.word 12 = 0 ∧
        State.Gets m (fun _ _ => none) ⟨.enter f [], [.idle], .blank⟩
          (.back (addressWord 4) .idle [] made)) ∧
      ∃ f ∈ m.functions, f.name = some (constructorSymbol "Shelf") ∧ ∃ made : Store,
        made.globals.get? heap = some (addressWord 8) ∧ made.memory.word 4 = 0 ∧
        ∃ g ∈ m.functions, ∃ waiting : Frame, g.name = some (methodSymbol "Shelf" constructorName) ∧
          State.Gets m (fun _ _ => none) ⟨.enter f [], [.idle], .blank⟩
            ⟨waiting.calling (methodSymbol "Shelf" constructorName) (addressWord 4), [.idle], made⟩ ∧
          State.step m (fun _ _ => none)
            ⟨waiting.calling (methodSymbol "Shelf" constructorName) (addressWord 4), [.idle], made⟩ =
            .next ⟨.enter g [addressWord 4], [waiting, .idle], made⟩ ∧
          State.Gets m (fun _ _ => none) (.back 0 waiting [.idle] made)
            (.back (addressWord 4) .idle [] made) := by
  obtain ⟨⟨tp, scope⟩, accepted⟩ : ∃ r, shelves.check = .ok r := ⟨_, rfl⟩
  obtain ⟨laid, m, pass, compiled, classes⟩ := construct_makes accepted
  refine ⟨m, compiled, ?_, ?_⟩
  · cases accepted
    obtain ⟨f, hf, -, name, effect⟩ := classes _ (.head _)
    obtain ⟨made, makes, runs⟩ := effect (fun _ _ => none) .blank 4 rfl (by decide) (by decide)
    obtain ⟨back, -⟩ := runs .idle []
    exact ⟨f, hf, name, made, makes.free, makes.slots 0 _ rfl, makes.slots 1 _ rfl,
      makes.slots 2 _ rfl, back (List.forall_mem_nil _)⟩
  · cases accepted
    cases pass
    have apart : (m.functions.map Func.name).Nodup := by
      cases compiled
      decide
    obtain ⟨f, hf, -, name, effect⟩ := classes _ (.tail _ (.head _))
    obtain ⟨made, makes, runs⟩ := effect (fun _ _ => none) .blank 4 rfl (by decide) (by decide)
    obtain ⟨-, calls⟩ := runs .idle []
    obtain ⟨waiting, call, ⟨g, hg, run, step⟩, back⟩ := calls _ (.head _) rfl
    refine ⟨f, hf, name, made, makes.free, makes.slots 0 _ rfl, g, hg, waiting, ?_, call,
      step apart, back 0 made⟩
    cases run .zero
    rfl

end Source
end ClassLang
