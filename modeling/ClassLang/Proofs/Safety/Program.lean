/-
Whole runs: each state that a program gets to is proper, and where the code of an expression has
been run, a word of its type lies on the stack.
-/
import ClassLang.Proofs.Compile
import ClassLang.Proofs.Safety.Call

namespace ClassLang

open Machine (Frame History State Store)

namespace Machine

variable {m : Module} {host : HostFunctions} {s t : State} {h h' : History}

/-- Nothing comes after the last state of a run. -/
theorem State.Leads.eq_of_last (leads : s.Leads m host h t h')
    (last : ∀ u, s.step m host ≠ .next u) : t = s ∧ h' = h := by
  induction leads with
  | refl => exact ⟨rfl, rfl⟩
  | @step t u h' earlier next ih =>
    obtain ⟨rfl, -⟩ := ih
    exact absurd next (last u)

end Machine

namespace Watch

variable {W : Watch} {place : Place} {base filled n : Nat} {code : Code} {stack : List Int32}
  {s t : State} {h h' : History} {func : String} {scope : Scope} {own : List Param}

/-! ## The entry function -/

section

variable (W : Watch)

/-- The call of the entry function that comes first. -/
def outermost : Place := ⟨0, entryExport, W.target.entry.result, [], []⟩

theorem start_at (memory : Memory) :
    W.At W.outermost W.target.entry.body [] (State.start W.target memory) .start := by
  have nothing : W.program.bytesOf entryExport = 0 :=
    Typed.Program.bytesOf_of_ne fun c _ => (Typed.entryExport_ne_construct c).symm
  have top : W.program.heapTop History.start.called = 4 := by
    show W.program.heapTop ([] ++ [entryExport]) = 4
    rw [Typed.Program.heapTop_concat, nothing]
    rfl
  have names : ((heap, heapStart) :: W.target.globals.map fun g => (g.name, g.init)).map Prod.fst =
      heap :: W.program.globals.map VarDef.name := by
    rw [W.target_globals, List.map_cons, List.map_map, List.map_map]
    rfl
  have distinct : (heap :: W.program.globals.map VarDef.name).Nodup := by
    refine List.nodup_cons.2 ⟨fun mem => ?_, W.checked.vars.distinct⟩
    obtain ⟨v, hv, eq⟩ := List.mem_map.1 mem
    exact (W.plain.globals v hv).ne_heap eq
  refine ⟨_, _, rfl, rfl, rfl, Or.inr ⟨rfl, rfl⟩, ?_, fun _ => ⟨fun v mem => ?_, ?_, ?_, ?_⟩⟩
  · rw [top]
    exact Table.get?_insertAll_of_mem (names ▸ distinct) List.mem_cons_self
  · have checked := W.checked.globals v mem
    have fits : W.program.Fits History.start.called v.ty v.value.word :=
      (Typed.Program.Fits.literal _).of_takes checked.takes checked.declared.1
    refine ⟨v.value.word, ?_, fits⟩
    refine Table.get?_insertAll_of_mem (names ▸ distinct) (List.mem_cons_of_mem _ ?_)
    rw [W.target_globals, List.map_map]
    exact List.mem_map.2 ⟨v, mem, rfl⟩
  · refine .cons ⟨entryExport, rfl, fun c _ m _ named => ?_⟩ .nil
    exact absurd named (entryExport_ne_methodSymbol _ _)
  · intro a f slot within
    have low := slot.four_le
    rw [top] at within
    omega
  · exact List.forall_mem_nil _

end

/-- The machine is in a proper state, and stops there. -/
def Ended (W : Watch) (s : State) (h : History) : Prop :=
  W.Proper s h ∧ ∀ t, s.step W.target W.host ≠ .next t

/-- In a body nothing is said of what objects are made. -/
theorem Here.proper_of_body (body : W.Body place.func scope own)
    (here : W.Here place base filled code stack s h)
    (access : W.typed → W.program.Accesses h code stack) : W.Proper s h := by
  refine here.proper access fun k w back => ?_
  obtain ⟨c, mem, named⟩ := here.func_eq back
  exact absurd named (body.ne_construct mem)

theorem keeps_run (n : Nat) (memory : Memory) :
    W.Keeps [] [] W.Ended n (State.start W.target memory) .start := by
  obtain ⟨bare, front, lowered, entry⟩ := W.exists_entry
  have outside : ¬W.scope.inMethod = true := by
    rw [Scope.inMethod, W.checked.owner]
    exact Bool.false_ne_true
  have body : W.Body W.outermost.func W.scope [] := .entry
  have inside : W.Inside W.outermost W.scope [] bare :=
    ⟨body, fun inMethod => absurd inMethod outside, fun inMethod => absurd inMethod outside,
      fun inMethod => absurd inMethod outside⟩
  have start := W.start_at memory
  rw [entry] at start
  refine (passes_stmts (serves n) inside W.checked.body lowered _ _ _ start).bind
    List.nil_suffix fun t h₁ after => ?_
  rcases after with ⟨-, there⟩ | ⟨-, w, ⟨caller, callers, store, waits, -⟩, -⟩
  · have result : W.target.entry.result = Typed.endsInExpr W.program.body := by
      rw [entry]
      rfl
    cases ends : Typed.endsInExpr W.program.body with
    | false =>
      rw [ends] at there result
      refine .here ⟨Here.proper_of_body body there fun _ => trivial, fun u => ?_⟩
      obtain ⟨locals, store, rfl, -⟩ := there
      simp [State.step, State.leave, result, outermost]
    | true =>
      rw [ends] at there result
      refine there.scratchGet List.nil_suffix fun t w there => ?_
      refine .here ⟨Here.proper_of_body body there fun _ => trivial, fun u => ?_⟩
      obtain ⟨locals, store, rfl, -⟩ := there
      simp [State.step, State.exec, State.leave, State.setCode, State.pop, result, outermost]
  · cases waits

/-- As long as addresses are words, every state of a run is proper. -/
theorem proper_of_leads {memory : Memory}
    (leads : (State.start W.target memory).Leads W.target W.host .start s h)
    (allowed : W.Allowed h) : W.Proper s h := by
  have down (h h' : History) (begins : h.Begins h') (allowed : W.Allowed h') : W.Allowed h :=
    allowed.down begins
  rcases Machine.Keeps.along (fun n => keeps_run n memory) down leads allowed with
    ⟨u, h₁, later, proper, last⟩ | ⟨proper, -⟩
  · obtain ⟨rfl, rfl⟩ := later.eq_of_last last
    exact proper
  · exact proper

/-- Where the code of an expression has been run in some body, its word is on the stack. -/
theorem pushed_of_completes {memory : Memory}
    (leads : (State.start W.target memory).Leads W.target W.host .start s h)
    (body : W.Body func scope own) {k : Nat} {below : List Nat} (active : h.active = k :: below)
    (called : h.called[k]? = some func) {e : Typed.Expr} (checked : e.Checked scope) {c rest : Code}
    (lowered : e.lower scope = .ok c) (code : s.frame.code = c ++ rest)
    (completes : State.Completes W.target W.host s.callers rest s h t h') (allowed : W.Allowed h') :
    ∃ w, t.frame.stack = w :: s.frame.stack ∧ W.Meets rest e.ty h' w := by
  have start := allowed.down completes.leads.begins
  let place : Place := ⟨k, func, s.frame.result, below, s.callers⟩
  have there : W.At place (c ++ rest) s.frame.stack s h := by
    rw [← code]
    exact (proper_of_leads leads start).settled k func below active called fun c mem =>
      body.ne_construct mem
  have keeps (n : Nat) : W.Keeps s.callers rest
      (W.Pushed place rest s.frame.stack h (W.Meets rest e.ty)) n s h :=
    leaves (serves n) body checked c rest _ s h lowered there
  have down (h h' : History) (begins : h.Begins h') (allowed : W.Allowed h') : W.Allowed h :=
    allowed.down begins
  have done (u : State) (h₁ : History)
      (pushed : W.Pushed place rest s.frame.stack h (W.Meets rest e.ty) u h₁) :
      u.frame.code = rest ∧ u.callers = s.callers := by
    obtain ⟨-, w, ⟨locals, store, rfl, -⟩, -⟩ := pushed
    exact ⟨rfl, rfl⟩
  obtain ⟨-, w, ⟨locals, store, rfl, -⟩, meets⟩ := Machine.Keeps.completes keeps down
    (fun u h₁ before => not_complete_of_within before.2) done completes allowed
  exact ⟨w, rfl, meets⟩

end Watch

/-! ## From the source -/

namespace Source

variable {p : Program} {tp : Typed.Program} {scope : Scope}

/-- A checked program with plain names, laid out, and its module. -/
theorem Program.exists_compiled (accepted : p.check = .ok (tp, scope))
    (plain : ∀ name ∈ p.names, Plain name) :
    ∃ S : Compiled, S.program = tp ∧ scope.withLayouts tp = .ok S.scope ∧ scope.Alike S.scope ∧
      p.toModule = .ok S.target := by
  obtain ⟨laid, pass, alike, checked, lays⟩ := Scope.withLayouts_ok (check_checked accepted)
  obtain ⟨m, g, run⟩ := checked.lower_ok lays .zero
  have lowers := Typed.Program.lower_lowers run
  let S : Compiled := ⟨tp, laid, m, checked, lays, lowers, check_plain accepted plain⟩
  exact ⟨S, rfl, pass, alike, toModule_of_run accepted pass run⟩

/-- What is seen of a program and its module after so many steps. -/
def Program.observe {α : Type} (p : Program) (host : HostFunctions) (n : Nat)
    (look : Typed.Program → Module → State → History → α) : Option α := do
  let (tp, _) ← p.check.toOption
  let m ← p.toModule.toOption
  let (s, h) ← State.follow m host n (State.start m .blank) .start
  return look tp m s h

theorem Program.leads_of_observe {α : Type} {host : HostFunctions} {n : Nat}
    {look : Typed.Program → Module → State → History → α} {a : α} {m : Module}
    (accepted : p.check = .ok (tp, scope)) (compiled : p.toModule = .ok m)
    (seen : p.observe host n look = some a) :
    ∃ s h, (State.start m .blank).Leads m host .start s h ∧ look tp m s h = a := by
  have followed : (State.follow m host n (State.start m .blank) .start >>= fun (s, h) =>
      some (look tp m s h)) = some a := by
    rw [observe, accepted, compiled] at seen
    exact seen
  obtain ⟨⟨s, h⟩, follow, eq⟩ := Option.bind_eq_some_iff.1 followed
  exact ⟨s, h, .of_follow follow, Option.some.inj eq⟩

end Source

end ClassLang
