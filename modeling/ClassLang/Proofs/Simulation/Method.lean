/-
Methods: entering a function binds what the evaluator binds, and leaving it hands back what the
evaluator hands back.
-/
import ClassLang.Proofs.Simulation.Stmt

namespace ClassLang

open Machine (Frame Outcome Reaches State)

/-! ## What a call binds -/

theorem mem_zip_map {α β γ : Type} {names : List α} {vs : List β} {name : α} {v : β} (f : β → γ)
    (mem : (name, v) ∈ names.zip vs) : (name, f v) ∈ names.zip (vs.map f) := by
  rw [List.zip_map_right]
  exact List.mem_map.2 ⟨(name, v), mem, rfl⟩

namespace Typed

variable {m : Method} {args : List Value}

/-- The entries that `Method.bindings` is made of. -/
theorem Method.bindings_names (count : args.length = m.params.length) :
    ((m.params.map Param.name).zip args ++
      m.definitions.map fun v => (v.name, v.value.value)).map Prod.fst =
        m.variables.map Param.name := by
  have enough : (m.params.map Param.name).length ≤ args.length := by
    rw [List.length_map, count]
  rw [List.map_append, List.map_fst_zip enough, List.map_map, Method.variables_names]
  rfl

theorem Method.get?_bindings_of_not_mem (count : args.length = m.params.length) {name : String}
    (notOwn : name ∉ m.variables.map Param.name) : (m.bindings args).get? name = none := by
  rw [← Method.bindings_names count] at notOwn
  exact Table.get?_insertAll_of_not_mem notOwn

end Typed

/-- The locals of a function once they have their initial values. -/
def Typed.Method.frame (m : Typed.Method) (words : List Int32) : Table Int32 :=
  (Table.ofList ((scratch, 0) :: (m.definitions.map VarDef.name).map (·, 0) ++
    (m.params.map Param.name).zip words)).insertAll
      (m.definitions.map fun v => (v.name, v.value.word))

/-- Each variable of a method has a value of its type, and a local with the word of that value. -/
theorem Typed.Method.exists_bound {p : Typed.Program} {m : Typed.Method} {scope : Scope}
    (distinct : (m.variables.map Param.name).Nodup) (plain : ∀ q ∈ m.variables, Plain q.name)
    (initial : ∀ v ∈ m.definitions, v.Checked scope) {w : World} {args : List Value}
    (fits : List.Forall₂ (Value.Fits w.classes) args (m.params.map Param.ty)) {q : Param}
    (mem : q ∈ m.variables) :
    ∃ v, (m.bindings args).get? q.name = some v ∧ v.Fits w.classes q.ty ∧
      (m.frame (args.map (w.word p))).get? q.name = some (w.word p v) := by
  have count : args.length = m.params.length := by
    rw [fits.length_eq, List.length_map]
  have apart := distinct
  rw [Method.variables_names, List.nodup_append] at apart
  obtain ⟨distinctParams, distinctDefinitions, disjoint⟩ := apart
  have distinctBindings := distinct
  rw [← Method.bindings_names count] at distinctBindings
  have definitionNames : (m.definitions.map fun v => (v.name, v.value.word)).map Prod.fst =
      m.definitions.map VarDef.name := by
    rw [List.map_map]
    rfl
  rcases List.mem_append.1 mem with mem | mem
  · obtain ⟨v, found, fits⟩ := exists_arg fits mem
    refine ⟨v, ?_, fits, ?_⟩
    · exact Table.get?_insertAll_of_mem distinctBindings (List.mem_append_left _ found)
    have notDefined :
        q.name ∉ (m.definitions.map fun v => (v.name, v.value.word)).map Prod.fst := by
      intro defined
      rw [definitionNames] at defined
      exact disjoint q.name (List.mem_map_of_mem mem) q.name defined rfl
    rw [Method.frame, Table.get?_insertAll_of_not_mem notDefined]
    refine Table.get?_insertAll_of_mem ?_ (List.mem_append_right _ (mem_zip_map _ found))
    exact Method.entry_nodup distinct plain (by rw [List.length_map, count])
  · obtain ⟨v, hv, rfl⟩ := List.mem_map.1 mem
    refine ⟨v.value.value, ?_, ?_, ?_⟩
    · exact Table.get?_insertAll_of_mem distinctBindings
        (List.mem_append_right _ (List.mem_map.2 ⟨v, hv, rfl⟩))
    · exact (Value.fits_literal v.value).of_takes (initial v hv).takes (initial v hv).declared.1
    · rw [World.word_literal]
      exact Table.get?_insertAll_of_mem (definitionNames ▸ distinctDefinitions)
        (List.mem_map.2 ⟨v, hv, rfl⟩)

theorem Typed.reaches_initLocals {m : Module} {host : HostFunctions} {Q : State → Prop}
    {X : Outcome → Prop} {code : Code} {stack : List Int32} {locals : Table Int32} {result : Bool}
    {callers : List Frame} {store : Machine.Store} (definitions : List VarDef)
    (after : Reaches m host Q X ⟨⟨code, stack,
      locals.insertAll (definitions.map fun v => (v.name, v.value.word)), result⟩, callers,
      store⟩) :
    Reaches m host Q X ⟨⟨initLocals definitions ++ code, stack, locals, result⟩, callers,
      store⟩ := by
  induction definitions generalizing locals with
  | nil => exact after
  | cons v definitions ih => exact .const (.localSet (ih after))

namespace Setting

variable {S : Setting}

theorem method_body {c : Typed.Class} (mem : c ∈ S.program.classes) {m : Typed.Method}
    (hm : m ∈ c.methods) {inner : Scope}
    (checked : m.Checked (S.scope.enterClass c.name) inner) : S.Body inner where
  ready := checked.ready ((S.checked.ready S.lays).enterClass c.name)
  classes := (Scope.enterMethod_enters checked.enters).classes
  plain := fun name binding found => by
    rcases S.compiled.exists_binding checked found with ⟨q, hq, rfl, -⟩ | ⟨-, v, hv, rfl, -⟩
    · exact S.plain.bound c mem m hm q hq
    · exact S.plain.globals v hv
  outer := fun name binding found outside => by
    have inside : inner.inMethod = true := checked.inMethod
    rw [inside, Bool.true_and] at outside
    rcases S.compiled.exists_binding checked found with ⟨q, -, -, rfl⟩ | ⟨-, v, hv, named, rfl⟩
    · cases outside
    · exact ⟨v, hv, named, rfl⟩
  returns := fun _ => by
    rw [(Scope.enterMethod_enters checked.enters).returns]
    exact checked.ret.1

theorem method_locals {c : Typed.Class} (mem : c ∈ S.program.classes) {m : Typed.Method}
    (hm : m ∈ c.methods) {inner : Scope}
    (checked : m.Checked (S.scope.enterClass c.name) inner) {args : List Value} {w : World}
    (fits : List.Forall₂ (Value.Fits w.classes) args (m.params.map Param.ty)) :
    S.Locals inner { w with locals := m.bindings args }
      (m.frame (args.map (w.word S.program))) where
  own := fun name binding found mine => by
    rcases S.compiled.exists_binding checked found with ⟨q, hq, rfl, rfl⟩ | ⟨-, v, -, -, rfl⟩
    · have distinct := (Scope.enterMethod_enters checked.enters).distinct
      exact m.exists_bound distinct (S.plain.bound c mem m hm) checked.definitions fits hq
    · rw [Bool.and_false] at mine
      cases mine
  outer := fun name binding found outside => by
    have inside : inner.inMethod = true := checked.inMethod
    rw [inside, Bool.true_and] at outside
    rcases S.compiled.exists_binding checked found with ⟨q, -, -, rfl⟩ | ⟨notOwn, -⟩
    · cases outside
    · have count : args.length = m.params.length := by
        rw [fits.length_eq, List.length_map]
      exact m.get?_bindings_of_not_mem count notOwn

/-! ## Calls -/

/-- A bare return hands back zero, or the object of a constructor. -/
theorem returned_bare {m : Typed.Method} {act : Activation} {caller : Frame}
    {callers : List Frame} {rest : Code} {before w : World} {s : State} {v : Value}
    (fits : m.isConstructor = false → v.Fits w.classes m.ret ∧ v = m.ret.zero)
    (result : act.result = true) (waits : act.callers = caller :: callers)
    (self : m.isConstructor = true → ∃ binding, act.scope.vars.get? "self" = some binding ∧
      (act.scope.inMethod && binding.assignable) = true)
    (start : S.At act (m.bare.code ++ rest) [] w s) :
    Reaches S.target S.host
      (S.Returned m before caller callers v { w with locals := before.locals })
      (fun _ => False) s := by
  obtain ⟨locals, store, rfl, holds, held⟩ := start
  rw [result, waits]
  cases kind : m.isConstructor with
  | true =>
    obtain ⟨binding, found, mine⟩ := self kind
    obtain ⟨obj, -, -, hl⟩ := holds.own "self" binding found mine
    rw [Typed.Method.bare_of_constructor kind]
    exact .localGet hl (.ret (.here ⟨_, store, rfl, held.setLocals _, rfl, by rw [kind]; nofun⟩))
  | false =>
    obtain ⟨fits, rfl⟩ := fits kind
    have zero : World.word S.program { w with locals := before.locals } m.ret.zero = 0 := by
      cases m.ret <;> rfl
    rw [Typed.Method.bare_of_ordinary kind]
    exact .const (.ret (.here ⟨0, store, rfl, held.setLocals _, rfl, fun _ => ⟨fits, zero.symm⟩⟩))

/-- The object of a constructor is among the locals. -/
theorem self_bound {c : Typed.Class} (mem : c ∈ S.program.classes) {m : Typed.Method}
    (hm : m ∈ c.methods) {inner : Scope} (checked : m.Checked (S.scope.enterClass c.name) inner)
    (isConstructor : m.isConstructor = true) :
    ∃ binding, inner.vars.get? "self" = some binding ∧
      (inner.inMethod && binding.assignable) = true := by
  have enters := Scope.enterMethod_enters checked.enters
  have own : ⟨"self", .object c.name⟩ ∈ m.variables := by
    rw [Typed.Method.variables, S.compiled.constructor_params mem hm isConstructor]
    exact List.mem_cons_self
  have inside : inner.inMethod = true := checked.inMethod
  have bound := (enters.vars "self").trans (Scope.overlay_of_mem enters.distinct own)
  exact ⟨_, bound, by rw [inside]; rfl⟩

theorem invoke_eq {call : Calls} {c : Typed.Class} (mem : c ∈ S.program.classes)
    {m : Typed.Method} (hm : m ∈ c.methods) {args : List Value} {w : World}
    (count : args.length = m.params.length) :
    S.program.invoke S.answers call c.name m.name args w =
      (Typed.Stmt.evalAll S.program S.answers call m.statements >>= m.handBack w.locals)
        { w with locals := m.bindings args } := by
  obtain ⟨info, shows, -⟩ := S.checked.classes.found c mem
  rw [Typed.Program.invoke, S.checked.class?_of_mem mem, Option.bind_some,
    find?_of_mem shows.methods.distinct hm]
  dsimp only
  rw [if_pos count]
  rfl

theorem serves_invoke {call : Calls} (serves : S.Serves call) :
    S.Serves (S.program.invoke S.answers call) where
  grow := Typed.Program.grows_invoke serves.grow
  follows := by
    intro c mem m hm args w caller callers store params returns fits held
    obtain ⟨inner, code, checked, lowered, inModule⟩ := S.compiled.exists_method mem hm
    have found := S.compiled.find_of_mem inModule rfl
    have count : args.length = m.params.length := by
      rw [fits.length_eq, List.length_map]
    have words : (args.map (w.word S.program)).length = (m.func c.name code).params.length := by
      show _ = (m.params.map Param.name).length
      rw [List.length_map, List.length_map, count]
    let act : Activation := ⟨inner, true, caller :: callers⟩
    have body : S.Body act.scope := method_body mem hm checked
    have self := self_bound mem hm checked
    have runs : S.Runs act m.bare _ code := runs_stmts serves body m.bare checked.statements lowered
    rw [invoke_eq mem hm count]
    refine .step (.call (import?_methodSymbol _ _) found _ words ?_)
    show Reaches _ _ _ _
      ⟨⟨Typed.initLocals m.definitions ++ code ++ m.bare.code, [], _, true⟩, _, store⟩
    rw [List.append_assoc]
    refine Typed.reaches_initLocals m.definitions (.here ?_)
    refine .bind (runs m.bare.code { w with locals := m.bindings args } _
      ⟨_, store, rfl, method_locals mem hm checked fits, held.setLocals _⟩)
      (m.grows_handBack w.locals) ?_
    intro flow w₁ t _ after
    have zero : m.ret.zero.Fits w₁.classes m.ret := Value.fits_zero checked.ret.1
    cases flow with
    | next =>
      have atEnd : S.At act (m.bare.code ++ []) [] w₁ t := by
        rw [List.append_nil]
        exact after
      exact fun _ => returned_bare (fun _ => ⟨zero, rfl⟩) rfl rfl self atEnd
    | leave =>
      obtain ⟨-, rest, there⟩ := after
      exact fun _ => returned_bare (fun _ => ⟨zero, rfl⟩) rfl rfl self there
    | ret v =>
      obtain ⟨-, fitsV, ⟨rest, there⟩ | ⟨bare, rest, there⟩⟩ := after
      · obtain ⟨locals, store', rfl, -, held'⟩ := there
        rw [(Scope.enterMethod_enters checked.enters).returns] at fitsV
        exact fun _ => .ret (.here ⟨_, store', rfl, held'.setLocals _, rfl, fun _ => ⟨fitsV, rfl⟩⟩)
      · have ordinary : ¬m.isConstructor = false := by
          rw [Typed.Method.bare_self bare]
          nofun
        exact fun _ => returned_bare (fun kind => absurd kind ordinary) rfl rfl self there

/-- Calls of any depth. -/
theorem serves_calls (fuel : Nat) : S.Serves (S.program.calls S.answers fuel) := by
  induction fuel with
  | zero => exact ⟨fun _ _ _ => .throw _, fun _ _ _ _ _ _ _ _ _ _ _ _ _ _ => trivial⟩
  | succ fuel ih => exact serves_invoke ih

end Setting
end ClassLang
