/-
Whole programs: the machine stops as the evaluator does.
-/
import ClassLang.Compile
import ClassLang.Proofs.Simulation.Method

namespace ClassLang

open Machine (Frame Outcome Reaches State)

namespace Typed

/-- What the machine stops in if the evaluator comes to `r`. -/
def Program.Realizes (p : Program) (limit : Nat) :
    EStateM.Result Halt World (Option Value) → Outcome → Prop
  | .ok v w, .finished result store => result = v.map (w.word p) ∧ w.HeldBy p limit store
  | .ok _ _, _ => False
  | .error halt w, outcome => halt.Stops p limit w outcome

variable {p : Program} {answers : String → List Int32 → Int32}

theorem Program.eval_of_expr (fuel : Nat) {ty : Ty} {e : Expr}
    (last : p.body.getLast? = some (.expr ty e)) :
    p.eval answers fuel = p.perform answers fuel p.body.dropLast >>= fun _ =>
      e.eval p answers (p.calls answers fuel) >>= fun v => pure (some v) := by
  rw [Program.eval, last]

theorem Program.eval_of_other (fuel : Nat) (last : ∀ ty e, p.body.getLast? ≠ some (.expr ty e)) :
    p.eval answers fuel = p.perform answers fuel p.body >>= fun _ => pure none := by
  rw [Program.eval]
  split
  · next ty e h => exact absurd h (last ty e)
  · rfl

theorem endsInExpr_iff {stmts : List Stmt} :
    endsInExpr stmts = true ↔ ∃ ty e, stmts.getLast? = some (.expr ty e) := by
  unfold endsInExpr
  split
  · next ty e h => exact ⟨fun _ => ⟨ty, e, h⟩, fun _ => rfl⟩
  · next h => exact ⟨nofun, fun ⟨ty, e, eq⟩ => absurd eq (h ty e)⟩

end Typed

namespace Setting

variable (S : Setting)

theorem outermost_body : S.Body S.scope where
  ready := S.checked.ready S.lays
  classes := rfl
  plain := fun name binding found => by
    obtain ⟨v, mem, rfl, -⟩ := S.checked.vars.only name binding found
    exact S.plain.globals v mem
  outer := fun name binding found _ => by
    obtain ⟨v, mem, named, rfl⟩ := S.checked.vars.only name binding found
    exact ⟨v, mem, named, rfl⟩
  returns := fun inside => by
    rw [Scope.inMethod, S.checked.owner] at inside
    cases inside

theorem outermost_locals (locals : Table Int32) (w : World) (empty : w.locals = .empty) :
    S.Locals S.scope w locals where
  own := fun name binding _ mine => by
    rw [Scope.inMethod, S.checked.owner] at mine
    cases mine
  outer := fun name _ _ _ => by
    rw [empty]
    exact Table.get?_empty name

/-- The machine starts with the world that the evaluator starts with. -/
theorem start_held {memory : Memory} (size : memory.size = S.limit)
    (room : S.program.world.heapEnd S.program ≤ S.limit) :
    S.program.world.HeldBy S.program S.limit (State.start S.target memory).store := by
  have globals : S.target.globals = S.program.globals.map fun v => ⟨v.name, v.value.word⟩ := by
    obtain ⟨functions, bare, code, -, -, eq⟩ := S.lowers
    rw [← eq]
    rfl
  have names : (S.program.globals.map fun v => (v.name, v.value.value)).map Prod.fst =
      S.program.globals.map VarDef.name := by
    rw [List.map_map]
    rfl
  have storeNames : ((heap, heapStart) :: S.target.globals.map fun g => (g.name, g.init)).map
      Prod.fst = heap :: S.program.globals.map VarDef.name := by
    rw [globals, List.map_cons, List.map_map, List.map_map]
    rfl
  have distinct : (heap :: S.program.globals.map VarDef.name).Nodup := by
    refine List.nodup_cons.2 ⟨fun mem => ?_, S.checked.vars.distinct⟩
    obtain ⟨v, hv, eq⟩ := List.mem_map.1 mem
    exact (S.plain.globals v hv).ne_heap eq
  refine ⟨fun v mem => ?_, fun id obj found => ?_, List.forall_mem_nil _, rfl, ?_, size, room⟩
  · have hv := S.checked.globals v mem
    refine ⟨v.value.value, ?_, ?_, ?_⟩
    · exact Table.get?_insertAll_of_mem (names ▸ S.checked.vars.distinct)
        (List.mem_map.2 ⟨v, mem, rfl⟩)
    · exact (Value.fits_literal v.value).of_takes hv.takes hv.declared.1
    · rw [World.word_literal]
      refine Table.get?_insertAll_of_mem (storeNames ▸ distinct) (List.mem_cons_of_mem _ ?_)
      rw [globals, List.map_map]
      exact List.mem_map.2 ⟨v, mem, rfl⟩
  · rw [Typed.Program.world, List.getElem?_nil] at found
    cases found
  · exact Table.get?_insertAll_of_mem (storeNames ▸ distinct) List.mem_cons_self

/-- The machine stands before the last step of the entry function. -/
def Ends (v : Option Value) (w : World) (s : State) : Prop :=
  ∃ store, w.HeldBy S.program S.limit store ∧
    s.step S.target S.host = .finished (v.map (w.word S.program)) store

variable {S}

theorem follows_perform (fuel : Nat) {act : Activation} (outermost : act.scope = S.scope)
    {stmts : List Typed.Stmt} (checked : ∀ st ∈ stmts, st.Checked S.scope) {bare : BareReturn}
    {c code : Code} (lowered : Typed.Stmt.lowerAll S.scope bare stmts = .ok c) {w : World}
    {s : State} (start : S.At act (c ++ code) [] w s) :
    S.Follows (S.program.perform S.answers fuel stmts w) (fun _ => S.At act code []) s := by
  have body : S.Body act.scope := outermost ▸ S.outermost_body
  have outside : ¬act.scope.inMethod = true := by
    rw [outermost, Scope.inMethod, S.checked.owner]
    intro inside
    cases inside
  rw [← outermost] at checked lowered
  refine .bind (runs_stmts (serves_calls fuel) body bare checked lowered code w s start)
    (fun flow => ?_) ?_
  · split
    · exact .pure _
    · exact .throw _
  intro flow w₁ t _ after
  cases flow with
  | next => exact .pure after
  | leave => exact absurd after.1 outside
  | ret v => exact absurd after.1 outside

/-- The word of the last expression is still in the scratch local. -/
theorem follows_last (fuel : Nat) {act : Activation} (outermost : act.scope = S.scope)
    (result : act.result = true) (alone : act.callers = []) {e : Typed.Expr}
    (checked : e.Checked S.scope) {c : Code} (lowered : e.lower S.scope = .ok c) {w : World}
    {s : State} (start : S.At act (c ++ [Instr.localSet scratch, .localGet scratch, .ret]) [] w s) :
    S.Follows ((e.eval S.program S.answers (S.program.calls S.answers fuel) >>= fun v =>
      pure (some v)) w) S.Ends s := by
  have body : S.Body act.scope := outermost ▸ S.outermost_body
  rw [← outermost] at checked lowered
  refine .bind (computes (serves_calls fuel) body checked c _ [] w s lowered start)
    (fun v => .pure _) ?_
  intro v w₁ t _ pushed
  obtain ⟨-, locals, store, rfl, -, held⟩ := pushed
  have kept : (locals.insert scratch (w₁.word S.program v)).get? scratch =
      some (w₁.word S.program v) := (Table.get?_insert ..).trans (if_pos rfl)
  refine .step (.localSet (.localGet kept (.here (.pure ⟨store, held, ?_⟩))))
  rw [result, alone]
  rfl

theorem start_at {memory : Memory} (size : memory.size = S.limit)
    (room : S.program.world.heapEnd S.program ≤ S.limit) {code : Code} {result : Bool}
    (body : S.target.entry.body = code) (hasResult : S.target.entry.result = result) :
    S.At ⟨S.scope, result, []⟩ code [] S.program.world (State.start S.target memory) := by
  subst body hasResult
  exact ⟨(State.start S.target memory).frame.locals, _, rfl, S.outermost_locals _ _ rfl,
    S.start_held size room⟩

theorem follows_program (fuel : Nat) {memory : Memory} (size : memory.size = S.limit)
    (room : S.program.world.heapEnd S.program ≤ S.limit) :
    S.Follows (S.program.run S.answers fuel) S.Ends (State.start S.target memory) := by
  obtain ⟨functions, bare, code, -, lowered, eq⟩ := S.lowers
  have entry : S.target.entry = S.program.entryFunc code := by
    rw [← eq]
    rfl
  have checked := S.checked.body
  show S.Follows (S.program.eval S.answers fuel S.program.world) S.Ends _
  cases ends : Typed.endsInExpr S.program.body with
  | true =>
    obtain ⟨ty, e, last⟩ := Typed.endsInExpr_iff.1 ends
    rw [← List.dropLast_append_getLast? _ last] at checked lowered
    obtain ⟨front, back⟩ := List.forall_mem_append.1 checked
    obtain ⟨c, hc, cs, hcs, rfl⟩ := Typed.Stmt.lowerAll_append.1 lowered
    obtain ⟨c', hc', _, ⟨⟩, rfl⟩ := Typed.Stmt.lowerAll_cons.1 hcs
    obtain ⟨ce, he, rfl⟩ := Typed.Stmt.lower_expr.1 hc'
    have body : S.target.entry.body =
        c ++ (ce ++ [Instr.localSet scratch, .localGet scratch, .ret]) := by
      rw [entry, Typed.Program.entryFunc, ends]
      simp only [if_true, List.append_assoc, List.append_nil, List.cons_append, List.nil_append]
    have hasResult : S.target.entry.result = true := by
      rw [entry, Typed.Program.entryFunc, ends]
    rw [Typed.Program.eval_of_expr fuel last]
    refine .bind (follows_perform fuel rfl front hc (S.start_at size room body hasResult))
      (fun _ => .bind (Typed.Expr.grows_eval (Typed.Program.grows_calls fuel) e) fun _ => .pure _)
      ?_
    intro _ w₁ t _ there
    cases back _ (List.mem_singleton.2 rfl) with
    | expr checked => exact follows_last fuel rfl rfl rfl checked he there
  | false =>
    have other : ∀ ty e, S.program.body.getLast? ≠ some (.expr ty e) := by
      intro ty e last
      have isExpr := Typed.endsInExpr_iff.2 ⟨ty, e, last⟩
      rw [ends] at isExpr
      cases isExpr
    have body : S.target.entry.body = code ++ [] := by
      rw [entry, Typed.Program.entryFunc, ends]
      rfl
    have noResult : S.target.entry.result = false := by
      rw [entry, Typed.Program.entryFunc, ends]
    rw [Typed.Program.eval_of_other fuel other]
    refine .bind (follows_perform fuel rfl checked lowered (S.start_at size room body noResult))
      (fun _ => .pure _) ?_
    intro _ w₁ t _ there
    obtain ⟨locals, store, rfl, -, held⟩ := there
    exact .pure ⟨store, held, rfl⟩

end Setting
end ClassLang
