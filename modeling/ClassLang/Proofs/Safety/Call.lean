/-
Calls: the functions of the module keep what they find.

A method is entered with its variables bound to words of their types.  A function that makes an
object lays it behind all others and fills its slots one after the other, and only then moves the
first free address; the constructor of the class finds the object like any other.
-/
import ClassLang.Proofs.Safety.Stmt

namespace ClassLang

open Machine (Frame History State Store)

namespace Typed

variable {p : Program} {called : List String}

/-- A method is entered with each of its variables bound. -/
theorem Method.exists_entry {m : Method} (distinct : (m.variables.map Param.name).Nodup)
    (plain : ∀ q ∈ m.variables, Plain q.name) (concrete : ∀ q ∈ m.variables, q.ty ≠ .any)
    {args : List Int32} (fits : List.Forall₂ (p.Fits called) (m.params.map Param.ty) args)
    (cls : String) (code : Code) {q : Param} (mem : q ∈ m.variables) :
    ∃ w, (Frame.enter (m.func cls code) args).locals.get? q.name = some w ∧
      p.Fits called q.ty w := by
  have count : args.length = m.params.length := by
    rw [← fits.length_eq, List.length_map]
  have once := Method.entry_nodup distinct plain count
  rcases List.mem_append.1 mem with mem | mem
  · have fits : List.Forall₂ (fun w ty => p.Fits called ty w) args (m.params.map Param.ty) :=
      fits.flip
    obtain ⟨w, passed, fits⟩ := exists_arg fits mem
    exact ⟨w, Table.get?_insertAll_of_mem once (List.mem_append_right _ passed), fits⟩
  · obtain ⟨v, hv, rfl⟩ := List.mem_map.1 mem
    have ty_ne := concrete _ (List.mem_append_right _ mem)
    refine ⟨0, Table.get?_insertAll_of_mem once ?_, .zero ty_ne⟩
    refine List.mem_append_left _ (List.mem_cons_of_mem _ ?_)
    exact List.mem_map.2 ⟨v.name, List.mem_map_of_mem hv, rfl⟩

end Typed

namespace Watch

variable {W : Watch} {place : Place} {base filled n : Nat} {code rest : Code} {stack : List Int32}
  {s : State} {h : History} {Q : State → History → Prop} {scope : Scope} {own : List Param}
  {bare : BareReturn} {good : History → Int32 → Prop}

/-! ## Entering a function -/

/-- What a function keeps and hands back, a call of it keeps and leaves on the stack. -/
theorem At.call {f : Func} {symbol : String} (inModule : f ∈ W.target.functions)
    (named : f.name = some symbol) (notHost : Host.import? symbol = none) {args : List Int32}
    (count : args.length = f.params.length)
    (bound : W.typed →
      W.program.Bound (h.called ++ [symbol]) h.called.length (Frame.enter f args).locals)
    (settled : (∃ c ∈ W.program.classes, symbol = constructorSymbol c.name) ∨
      W.program.bytesOf symbol = 0) {params : Nat} {returns : Bool}
    (here : W.At place (.call symbol params returns :: code) (args.reverse ++ stack) s h)
    (go : ∀ inner t, inner.call = h.called.length → inner.func = symbol →
      inner.result = f.result →
      W.Here inner (W.program.heapTop h.called) (W.program.heapTop h.called) f.body [] t
        (h.enter symbol) →
      W.Keeps inner.callers [] (fun u h' => (h.enter symbol).Begins h' ∧
        ∃ w, W.Left inner w u h' ∧ good h' w) n t (h.enter symbol)) :
    W.Keeps place.callers code (W.Pushed place code stack h good) (n + 1) s h := by
  refine Machine.Keeps.succ (here.quiet_ready rfl (List.suffix_refl _)) fun _ t step => ?_
  obtain ⟨locals, store, rfl, holds⟩ := here
  rw [Machine.Reaches.step_call notHost (W.find_of_mem inModule named) args count] at step
  cases step
  simp only [History.after, notHost, Option.isNone_none, if_true]
  let inner : Place := ⟨h.called.length, symbol, f.result, h.active,
    ⟨code, stack, locals, place.result⟩ :: place.callers⟩
  have begun : (h.enter symbol).called = h.called ++ [symbol] := rfl
  have entered : W.Holds inner (W.program.heapTop h.called) (W.program.heapTop h.called)
      (h.enter symbol) (Frame.enter f args).locals store := by
    refine ⟨rfl, ?_, settled.imp_right fun nothing => ?_, holds.free, fun typed => ?_⟩
    · rw [begun, List.getElem?_concat_length]
    · rw [begun, Typed.Program.heapTop_concat, nothing]
      exact ⟨rfl, rfl⟩
    · exact (holds.held typed).enter symbol (Nat.le_refl _) (bound typed)
  refine (go inner _ rfl rfl rfl ⟨_, store, rfl, entered⟩).bind_call fun u h' left => ?_
  obtain ⟨begins, w, ⟨caller, callers, store', waits, rfl, active, free, held⟩, isGood⟩ := left
  cases waits
  have begins := (h.begins_enter symbol).trans begins
  have below : h'.active = place.call :: place.below := active.trans holds.active
  have func := getElem?_of_prefix begins.called holds.func
  exact .here ⟨begins, w, ⟨locals, store', rfl, below, func, Or.inr ⟨rfl, rfl⟩, free, held⟩, isGood⟩

/-! ## Methods -/

theorem At.initLocals (body : W.Body place.func scope own) {outer : Scope}
    {definitions : List VarDef}
    (initial : ∀ v ∈ definitions, ⟨v.name, v.ty⟩ ∈ own ∧ v.Checked outer)
    (here : W.At place (Typed.initLocals definitions ++ code) [] s h) (ahead : rest <:+ code)
    (go : ∀ t, W.At place code [] t h → W.Keeps place.callers rest Q n t h) :
    W.Keeps place.callers rest Q n s h := by
  induction definitions generalizing s with
  | nil => exact go s here
  | cons v definitions ih =>
    obtain ⟨⟨mem, checked⟩, others⟩ := List.forall_mem_cons.1 initial
    have ahead' : rest <:+ Typed.initLocals definitions ++ code :=
      ahead.trans (List.suffix_append _ _)
    have fits : W.program.Fits h.called v.ty v.value.word :=
      (Typed.Program.Fits.literal v.value).of_takes checked.takes checked.declared.1
    refine here.const (ahead'.trans (List.suffix_cons _ _)) fun t there => ?_
    refine Here.localSet body mem (fun _ => fits) there ahead' fun t there => ?_
    exact ih others there

/-- The body of a method, entered with its variables bound, leaves the method in the end. -/
theorem At.methodBody (serves : W.Serves n) {m : Typed.Method} {cls : String}
    (checked : m.Checked (W.scope.enterClass cls) scope)
    (inside : W.Inside place scope m.variables m.bare) {front : Code}
    (lowered : Typed.Stmt.lowerAll scope m.bare m.statements = .ok front)
    (here : W.At place (Typed.initLocals m.definitions ++ (front ++ (m.bare.code ++ []))) [] s h) :
    W.Keeps place.callers [] (W.Back place scope m.bare h) n s h := by
  have inMethod : scope.inMethod = true := checked.inMethod
  have initial : ∀ v ∈ m.definitions, ⟨v.name, v.ty⟩ ∈ m.variables ∧ v.Checked _ := fun v hv =>
    ⟨List.mem_append_right _ (List.mem_map.2 ⟨v, hv, rfl⟩), checked.definitions v hv⟩
  refine here.initLocals inside.body initial List.nil_suffix fun t there => ?_
  refine (passes_stmts serves inside checked.statements lowered _ t _ there).bind
    List.nil_suffix fun u h₁ after => ?_
  rcases after with ⟨begins, there⟩ | back
  · refine (At.bareReturn inside inMethod there (List.suffix_refl _)).bind (List.suffix_refl _)
      fun u h₂ back => ?_
    exact .here (back.since begins)
  · exact .here back

theorem serves_method (serves : W.Serves n) {c : Typed.Class} (mem : c ∈ W.program.classes)
    {m : Typed.Method} (hm : m ∈ c.methods) {args : List Int32} {params : Nat} {returns : Bool}
    (count : args.length = m.params.length)
    (fits : W.typed → List.Forall₂ (W.program.Fits h.called) (m.params.map Param.ty) args)
    (here : W.At place (.call (methodSymbol c.name m.name) params returns :: code)
      (args.reverse ++ stack) s h) :
    W.Keeps place.callers code (W.Pushed place code stack h fun h' w =>
      W.typed → m.isConstructor = false → W.program.Fits h'.called m.ret w) (n + 1) s h := by
  obtain ⟨scope, front, checked, lowered, inModule⟩ := W.exists_method mem hm
  have enters := Scope.enterMethod_enters checked.enters
  have body : W.Body (methodSymbol c.name m.name) scope m.variables := .method mem hm checked
  have nothing : W.program.bytesOf (methodSymbol c.name m.name) = 0 :=
    Typed.Program.bytesOf_of_ne fun d hd => W.plain.construct_ne_method hd mem hm
  have arity : args.length = (m.func c.name front).params.length := by
    rw [count]
    exact (List.length_map _).symm
  refine here.call inModule rfl (import?_methodSymbol _ _) arity (fun typed => ?_)
    (Or.inr nothing) fun inner t call func result there => ?_
  · refine ⟨_, List.getElem?_concat_length .., fun d hd m' hm' named v hv => ?_⟩
    rw [← body.own_eq hd hm' named] at hv
    refine Typed.Method.exists_entry enters.distinct body.plain
      (fun q hq => checked.variables_ne_any hq) ?_ c.name front hv
    exact (fits typed).imp fun _ _ fits => fits.grow (List.prefix_append _ _)
  have top : W.program.heapTop (h.enter (methodSymbol c.name m.name)).called =
      W.program.heapTop h.called := by
    show W.program.heapTop (h.called ++ [_]) = _
    rw [Typed.Program.heapTop_concat, nothing]
    rfl
  have inside : W.Inside inner scope m.variables m.bare := by
    refine ⟨func ▸ body, fun _ => result, fun _ => ?_, fun _ self => ?_⟩
    · rw [enters.returns]
      exact checked.ret.1
    · rw [Typed.Method.variables, W.constructor_params mem hm (Typed.Method.bare_self self)]
      exact List.mem_cons_self
  have start : W.At inner (Typed.initLocals m.definitions ++ (front ++ (m.bare.code ++ []))) [] t
      (h.enter (methodSymbol c.name m.name)) := by
    rw [At, top, List.append_nil, ← List.append_assoc]
    exact there
  refine (start.methodBody serves checked inside lowered).bind (List.suffix_refl _)
    fun u h' back => ?_
  obtain ⟨begins, w, left, fits⟩ := back
  refine .here ⟨begins, w, left, fun typed ordinary => ?_⟩
  exact enters.returns ▸ fits typed (Typed.Method.bare_of_ordinary ordinary)

/-! ## Making objects -/

/-- The slots of the remaining fields are filled, one after the other. -/
theorem Here.initFields {c : Typed.Class} (mem : c ∈ W.program.classes)
    (named : place.func = constructorSymbol c.name) {done fields : List VarDef}
    (split : c.fields = done ++ fields) {init : Code}
    (lowered : Typed.initFields c.name c.layout fields = .ok init)
    (lies : base = W.program.handle h.called place.call)
    (here : W.Here place base (base + 4 * done.length) (init ++ code) stack s h)
    (ahead : rest <:+ code)
    (go : ∀ t stored, W.Here place base (base + 4 * c.fields.length) code stack t
      { h with stored } → W.Keeps place.callers rest Q n t { h with stored }) :
    W.Keeps place.callers rest Q n s h := by
  induction fields generalizing done init s h with
  | nil =>
    cases lowered
    rw [List.append_nil] at split
    rw [← split] at here
    exact go s h.stored here
  | cons f fields ih =>
    have field : c.fields[done.length]? = some f := by
      rw [split, List.getElem?_append_right (Nat.le_refl _), Nat.sub_self]
      rfl
    rw [Typed.initFields] at lowered
    split at lowered
    · next offset found =>
      simp only [bind_eq_ok, pure_eq_ok] at lowered
      obtain ⟨others, hothers, rfl⟩ := lowered
      obtain ⟨info, shows, -⟩ := W.checked.classes.found c mem
      have eq := Typed.Class.offset_eq shows.fields.distinct field found
      have split' : c.fields = (done ++ [f]) ++ fields := by
        rw [split, List.append_assoc]
        rfl
      have next : base + 4 * (done ++ [f]).length = base + 4 * done.length + 4 := by
        rw [List.length_append, List.length_singleton]
        omega
      have func : h.called[place.call]? = some (constructorSymbol c.name) := named ▸ here.found
      have slot : W.program.IsSlot h.called (base + 4 * done.length) f :=
        ⟨c, mem, place.call, done.length, func, field, by rw [lies]⟩
      have fits : W.program.Fits h.called f.ty f.value.word := by
        have checked := (W.checked.bodies c mem).fields f (List.mem_of_getElem? field)
        exact (Typed.Program.Fits.literal f.value).of_takes checked.takes checked.declared.1
      have behind (front : Code) : rest <:+ front ++ (others ++ code) :=
        (ahead.trans (List.suffix_append _ _)).trans (List.suffix_append _ _)
      refine here.heapGet (behind [_, _, _, _]) fun t here => ?_
      refine here.const (behind [_, _, _]) fun t here => ?_
      refine here.binary rfl (behind [_, _]) fun t a sum here => ?_
      have address : a = addressWord (base + 4 * done.length) := by
        rw [← addressWord_add, ← eq]
        exact (Option.some.inj sum).symm
      refine here.const (behind [_]) fun t here => ?_
      have further (t : State) (stored : List Nat) (here : W.Here place base
          (base + 4 * (done ++ [f]).length) (others ++ code) stack t { h with stored }) :
          W.Keeps place.callers rest Q n t { h with stored } := ih split' hothers lies here go
      refine here.store (behind []) (Or.inl ⟨c, mem, named⟩) (fun _ => ?_) further
      refine ⟨_, f, address, slot, fits, by omega, by omega, fun d g other within => ?_⟩
      rcases other.apart slot W.checked with ⟨same, -⟩ | before | after
      · exact Or.inl same
      · exact Or.inr before
      · omega
    · cases lowered

/-- The first free address goes past the object, which has been filled. -/
theorem Here.moveHeap {c : Typed.Class} (mem : c ∈ W.program.classes)
    (named : place.func = constructorSymbol c.name)
    (top : base + 4 * c.fields.length = W.program.heapTop h.called)
    (here : W.Here place base (base + 4 * c.fields.length)
      ([.globalGet heap, .const c.layout.size.toInt32, .add, .globalSet heap] ++ code) stack s h)
    (ahead : rest <:+ code)
    (go : ∀ t, W.At place code stack t h → W.Keeps place.callers rest Q n t h) :
    W.Keeps place.callers rest Q n s h := by
  have behind (front : Code) : rest <:+ front ++ code := ahead.trans (List.suffix_append _ _)
  have count : c.layout.fields.length = c.fields.length := List.length_map _
  refine here.heapGet (behind [_, _, _]) fun t here => ?_
  refine here.const (behind [_, _]) fun t here => ?_
  refine here.binary rfl (behind [_]) fun t a sum here => ?_
  have past : a = addressWord (W.program.heapTop h.called) := by
    rw [← top, ← addressWord_add, ← count, ← Layout.size_toInt32]
    exact (Option.some.inj sum).symm
  rw [past, top] at here
  exact here.heapSet mem named (behind []) go

/-- The object is handed back. -/
theorem At.handBack {c : Typed.Class} (named : place.func = constructorSymbol c.name)
    (result : place.result = true) {start : History} (begins : start.Begins h) {w : Int32}
    (made : w = addressWord (W.program.handle h.called place.call))
    (here : W.At place [.ret] [w] s h) :
    W.Keeps place.callers [] (fun u h' => start.Begins h' ∧ ∃ w, W.Left place w u h' ∧
      (W.typed → W.program.Fits h'.called (.object c.name) w)) n s h := by
  have func : h.called[place.call]? = some (constructorSymbol c.name) := by
    rw [← named]
    exact Here.found here
  refine Here.ret here result (List.suffix_refl _) ⟨rfl, rfl⟩ (fun _ _ _ => made) fun t left => ?_
  refine .here ⟨⟨begins.called, begins.kept⟩, w, left, fun _ => ?_⟩
  rw [made]
  exact .made func

/-- A constructor gets the object, and what it hands back is dropped. -/
theorem At.runConstructor (serves : W.Serves n) {c : Typed.Class} (mem : c ∈ W.program.classes)
    (runs : c.methods.any Typed.Method.isConstructor = true) {w : Int32}
    (fits : W.typed → W.program.Fits h.called (.object c.name) w)
    (here : W.At place ([.call (methodSymbol c.name Source.constructorName) 1 true,
      .localSet scratch] ++ code) (w :: stack) s h) (ahead : rest <:+ code)
    (go : ∀ t h', h.Begins h' → W.At place code stack t h' →
      W.Keeps place.callers rest Q n t h') : W.Keeps place.callers rest Q n s h := by
  obtain ⟨m, hm, isConstructor⟩ := List.any_eq_true.1 runs
  have name : m.name = Source.constructorName := of_decide_eq_true isConstructor
  have params := W.constructor_params mem hm isConstructor
  have count : [w].length = m.params.length := by
    rw [params]
    rfl
  have fitsSelf (typed : W.typed) :
      List.Forall₂ (W.program.Fits h.called) (m.params.map Param.ty) [w] := by
    rw [params]
    exact .cons (fits typed) .nil
  rw [← name] at here
  refine (serves.method c mem m hm place _ stack [w] s h 1 true count fitsSelf here).bind
    (ahead.trans (List.suffix_cons _ _)) fun t h' pushed => ?_
  obtain ⟨begins, x, there, -⟩ := pushed
  exact there.drop ahead fun t there => go t h' begins there

/-- The object is made at `base`, which is behind all others. -/
theorem Here.construct (serves : W.Serves n) {c : Typed.Class} (mem : c ∈ W.program.classes)
    (named : place.func = constructorSymbol c.name) (result : place.result = true) {fields : Code}
    (filled : Typed.initFields c.name c.layout c.fields = .ok fields)
    (lies : base = W.program.handle h.called place.call)
    (top : base + 4 * c.fields.length = W.program.heapTop h.called)
    (here : W.Here place base base
      (c.constructFunc fields (c.methods.any Typed.Method.isConstructor)).body [] s h) :
    W.Keeps place.callers [] (fun u h' => h.Begins h' ∧ ∃ w, W.Left place w u h' ∧
      (W.typed → W.program.Fits h'.called (.object c.name) w)) n s h := by
  have made : h.called[place.call]? = some (constructorSymbol c.name) := named ▸ here.found
  have bound : place.call < h.called.length := (List.getElem?_eq_some_iff.1 made).1
  have stays {h' : History} (begins : h.Begins h') :
      base = W.program.handle h'.called place.call := by
    rw [Typed.Program.handle_of_prefix begins.called (Nat.le_of_lt bound), lies]
  have start : W.Here place base (base + 4 * ([] : List VarDef).length)
      (c.constructFunc fields (c.methods.any Typed.Method.isConstructor)).body [] s h := here
  rw [Typed.Class.constructFunc_body] at start
  refine start.initFields mem named (List.nil_append _).symm filled lies List.nil_suffix
    fun t stored there => ?_
  have begins : h.Begins { h with stored } := ⟨List.prefix_refl _, List.prefix_refl _⟩
  refine there.heapGet List.nil_suffix fun t there => ?_
  cases runs : c.methods.any Typed.Method.isConstructor with
  | false =>
    rw [runs] at there
    refine there.moveHeap mem named top List.nil_suffix fun t there => ?_
    exact there.handBack named result begins (congrArg addressWord (stays begins))
  | true =>
    rw [runs] at there
    refine there.heapGet List.nil_suffix fun t there => ?_
    refine there.moveHeap mem named top List.nil_suffix fun t there => ?_
    have fits : W.program.Fits h.called (.object c.name) (addressWord base) := by
      rw [lies]
      exact .made made
    refine there.runConstructor serves mem runs (fun _ => fits) List.nil_suffix
      fun t h' begins' there => ?_
    exact there.handBack named result (begins.trans begins')
      (congrArg addressWord (stays (begins.trans begins')))

theorem serves_construct (serves : W.Serves n) {c : Typed.Class} (mem : c ∈ W.program.classes)
    (here : W.At place (.call (constructorSymbol c.name) 0 true :: code) stack s h) :
    W.Keeps place.callers code (W.Pushed place code stack h fun h' w =>
      W.typed → W.program.Fits h'.called (.object c.name) w) (n + 1) s h := by
  obtain ⟨fields, filled, inModule⟩ := W.exists_construct mem
  have notHost : Host.import? (constructorSymbol c.name) = none := by
    rw [constructorSymbol_eq]
    exact import?_methodSymbol _ _
  have unbound (locals : Table Int32) : W.program.Bound (h.called ++ [constructorSymbol c.name])
      h.called.length locals :=
    ⟨_, List.getElem?_concat_length .., fun d hd m hm named =>
      absurd named (W.plain.construct_ne_method mem hd hm)⟩
  have here : W.At place (.call (constructorSymbol c.name) 0 true :: code)
    (([] : List Int32).reverse ++ stack) s h := here
  refine here.call inModule rfl notHost rfl (fun _ => unbound _) (Or.inl ⟨c, mem, rfl⟩)
    fun inner t call func result there => there.construct serves mem func result filled ?_ ?_
  · rw [call, Typed.Program.handle_of_prefix (h.begins_enter _).called (Nat.le_refl _),
      Typed.Program.handle_length]
  · show _ = W.program.heapTop (h.called ++ [_])
    rw [Typed.Program.heapTop_concat, W.checked.bytesOf_construct mem]

/-- Calls of any depth. -/
theorem serves (n : Nat) : W.Serves n := by
  induction n with
  | zero =>
    constructor <;> intros <;> trivial
  | succ n ih =>
    constructor
    · intro c mem m hm _ _ _ _ _ _ _ _ count fits here
      exact serves_method ih mem hm count fits here
    · intro c mem _ _ _ _ _ here
      exact serves_construct ih mem here

end Watch
end ClassLang
