/-
Making objects.

The object comes to lie behind all others, with the initial values in its slots, before the
constructor of the class runs on it.
-/
import ClassLang.Proofs.Machine.Construct
import ClassLang.Proofs.Simulation.Storage

namespace ClassLang

open Machine (Frame Outcome Reaches State)

namespace Setting

variable (S : Setting)

/-- A method has come back to the function that called it.  What a constructor hands back nobody
looks at. -/
def Returned (m : Typed.Method) (before : World) (caller : Frame) (callers : List Frame)
    (v : Value) (w : World) (s : State) : Prop :=
  ∃ r store, s = ⟨{ caller with stack := r :: caller.stack }, callers, store⟩ ∧
    w.HeldBy S.program S.limit store ∧ w.locals = before.locals ∧
      (m.isConstructor = false → v.Fits w.classes m.ret ∧ r = w.word S.program v)

/-- The functions of the module do what calls of methods do. -/
structure Serves (call : Calls) : Prop where
  grow : call.Grow
  follows : ∀ c ∈ S.program.classes, ∀ m ∈ c.methods, ∀ (args : List Value) (w : World)
    (caller : Frame) (callers : List Frame) (store : Machine.Store) (params : Nat) (returns : Bool),
    List.Forall₂ (Value.Fits w.classes) args (m.params.map Param.ty) →
      w.HeldBy S.program S.limit store →
        S.Follows (call c.name m.name args w) (S.Returned m w caller callers)
          ⟨{ caller with
            code := .call (methodSymbol c.name m.name) params returns :: caller.code
            stack := (args.map (w.word S.program)).reverse ++ caller.stack }, callers, store⟩

variable {S} {w : World} {c : Typed.Class}

/-- The code of a constructor function up to where the constructor of the class would run. -/
theorem reaches_allocate {Q : State → Prop} {X : Outcome → Prop} {tail fields : Code}
    {locals : Table Int32} {result : Bool} {callers : List Frame} {store : Machine.Store}
    (mem : c ∈ S.program.classes) (held : w.HeldBy S.program S.limit store)
    (room : (w.add c.blank).heapEnd S.program ≤ S.limit)
    (filled : Typed.initFields c.name c.layout c.fields = .ok fields) (runs : Bool)
    (after : ∀ store', (w.add c.blank).HeldBy S.program S.limit store' →
      Reaches S.target S.host Q X ⟨⟨tail,
        (if runs then [addressWord (w.heapEnd S.program)] else []) ++
          [addressWord (w.heapEnd S.program)], locals, result⟩, callers, store'⟩) :
    Reaches S.target S.host Q X ⟨⟨fields ++ ([Instr.globalGet heap] ++
      ((if runs then [Instr.globalGet heap] else []) ++
        ([Instr.globalGet heap, .const c.layout.size.toInt32, .add, .globalSet heap] ++ tail))),
      [], locals, result⟩, callers, store⟩ := by
  obtain ⟨info, shows, -⟩ := S.checked.classes.found c mem
  rw [World.heapEnd_add S.checked w mem] at room
  have size := held.size
  have limit := S.limit_le
  have inside : w.heapEnd S.program + 4 * c.fields.length ≤ store.memory.size := by omega
  have small : w.heapEnd S.program + 4 * c.fields.length ≤ 2 ^ 32 := by omega
  have made := store.makes_make c (w.heapEnd S.program)
  have held' := held.makeObject S.checked S.plain mem room made.size
    (fun a below => Memory.word_putWords_of_below below) made.slots
  exact Typed.Class.reaches_make shows.fields.distinct filled held.free inside small runs
    (after _ held')

/-- The evaluator makes the object before it runs the constructor. -/
theorem makeObject_eq {call : Calls} (mem : c ∈ S.program.classes) :
    Typed.makeObject S.program call c.name w =
      (if c.methods.any Typed.Method.isConstructor then
        call c.name Source.constructorName [.ref w.objects.length] >>= fun _ =>
          pure (.ref w.objects.length)
      else pure (.ref w.objects.length) : Eval Value) (w.add c.blank) := by
  rw [Typed.makeObject, S.checked.class?_of_mem mem]
  cases runs : c.methods.any Typed.Method.isConstructor with
  | false =>
    simp only [runs]
    rfl
  | true =>
    simp only [runs]
    rfl

theorem follows_makeObject {call : Calls} (serves : S.Serves call) {act : Activation}
    {code : Code} {stack : List Int32} {s : State} (mem : c ∈ S.program.classes)
    (start : S.At act (.call (constructorSymbol c.name) 0 true :: code) stack w s) :
    S.Follows (Typed.makeObject S.program call c.name w)
      (S.Pushed act code stack (.object c.name)) s := by
  obtain ⟨locals, store, rfl, holds, held⟩ := start
  obtain ⟨fields, filled, inModule⟩ := S.compiled.exists_construct mem
  have found := S.compiled.find_of_mem inModule rfl
  have notHost : Host.import? (constructorSymbol c.name) = none := by
    rw [constructorSymbol_eq]
    exact import?_methodSymbol _ _
  have here : World.word S.program (w.add c.blank) (.ref w.objects.length) =
      addressWord (w.heapEnd S.program) := congrArg addressWord (World.address_add S.program w c)
  have made : (w.add c.blank).classes[w.objects.length]? = some c.name := by
    have all : w.classes.length = w.objects.length := List.length_map _
    rw [World.classes_add, ← all, List.getElem?_concat_length]
  have grown := w.extends_add c
  rw [S.makeObject_eq mem]
  cases runs : c.methods.any Typed.Method.isConstructor with
  | false =>
    rw [runs] at found
    refine .within (w := w.add c.blank) (.refl _) fun room => .step ?_
    refine .call notHost found [] rfl ?_
    show Reaches _ _ _ _ ⟨⟨(c.constructFunc fields false).body, [], _, true⟩, _, store⟩
    rw [Typed.Class.constructFunc_body]
    refine reaches_allocate mem held room filled false fun store' held' => .ret (.here ?_)
    refine .pure ⟨.ref made, locals, store', ?_, holds.grow grown rfl, held'⟩
    rw [here]
  | true =>
    obtain ⟨m, hm, isConstructor⟩ := List.any_eq_true.1 runs
    have named : m.name = Source.constructorName := of_decide_eq_true isConstructor
    have fits : List.Forall₂ (Value.Fits (w.add c.blank).classes) [.ref w.objects.length]
        (m.params.map Param.ty) := by
      rw [S.compiled.constructor_params mem hm isConstructor]
      exact .cons (.ref made) .nil
    rw [runs] at found
    refine .within (w := w.add c.blank) ?_ fun room => .step ?_
    · exact (Grows.bind (serves.grow _ _ _) fun _ => .pure _) _
    refine .call notHost found [] rfl ?_
    show Reaches _ _ _ _ ⟨⟨(c.constructFunc fields true).body, [], _, true⟩, _, store⟩
    rw [Typed.Class.constructFunc_body]
    refine reaches_allocate mem held room filled true fun store' held' => .here ?_
    rw [← named, ← here]
    refine .bind (serves.follows c mem m hm _ _ ⟨[.localSet scratch, .ret], [_], _, true⟩ _ store'
      1 true fits held') (fun _ => .pure _) fun v w' t run returned => ?_
    obtain ⟨r, store'', rfl, held'', same, -⟩ := returned
    have grown' := (serves.grow _ _ _).ok run
    refine .step (.localSet (.ret (.here (.pure ⟨.ref (grown'.getElem? made), ?_⟩))))
    refine ⟨locals, store'', ?_, holds.grow (grown.trans grown') same, held''⟩
    rw [grown'.word (Value.Fits.ref made).made]

end Setting
end ClassLang
