/-
Methods that control may leave at their end.

The checker refuses such a method if it is declared to return a number or a truth value.  In every
other method the end of the body stands for `return None`: writing it out there changes nothing for
the checker, and then control gets to the end of no method at all.
-/
import ClassLang.Proofs.Checker.Methods
import ClassLang.Proofs.Returns.Definite

namespace ClassLang

/-! ## Writing out the return at the end -/

namespace Source

/-- Puts a return of the absent value behind the statements of a method that may hand it back. -/
def Method.closeEnd (m : Method) : Method :=
  if m.ret = .int ∨ m.ret = .bool then m
  else { m with statements := m.statements ++ [.give .absent] }

def Program.closeEnds (p : Program) : Program := p.mapMethods Method.closeEnd

end Source

namespace Typed

def Method.closeEnd (m : Method) : Method :=
  if m.ret = .int ∨ m.ret = .bool then m
  else { m with statements := m.statements ++ [.ret .none (some (.literal .none .none))] }

/-- What returns nothing leaves the type of the statements before it. -/
theorem bodyTy_concat {stmts : List Stmt} {s : Stmt} (absent : s.ty = .none) :
    bodyTy (stmts ++ [s]) = bodyTy stmts := by
  rw [bodyTy, List.foldl_append, List.foldl_cons, if_pos absent]
  rfl

end Typed

namespace Source

section Statements

variable {scope : Scope}

theorem Stmt.checkAll_concat {stmts : List Stmt} {s : Stmt} {tss : List Typed.Stmt} :
    Stmt.checkAll scope (stmts ++ [s]) = .ok tss ↔
      ∃ ts, Stmt.checkAll scope stmts = .ok ts ∧ ∃ t, s.check scope = .ok t ∧ ts ++ [t] = tss := by
  induction stmts generalizing tss with
  | nil =>
    rw [List.nil_append, Stmt.checkAll_cons]
    constructor
    · rintro ⟨t, ht, ts, hts, rfl⟩
      cases hts
      exact ⟨[], rfl, t, ht, rfl⟩
    · rintro ⟨ts, hts, t, ht, rfl⟩
      cases hts
      exact ⟨t, ht, [], rfl, rfl⟩
  | cons first rest ih =>
    simp only [List.cons_append, Stmt.checkAll_cons, ih]
    constructor
    · rintro ⟨t, ht, _, ⟨ts, hts, last, hlast, rfl⟩, rfl⟩
      exact ⟨t :: ts, ⟨t, ht, ts, hts, rfl⟩, last, hlast, rfl⟩
    · rintro ⟨_, ⟨t, ht, ts, hts, rfl⟩, last, hlast, rfl⟩
      exact ⟨t, ht, ts ++ [last], ⟨ts, hts, last, hlast, rfl⟩, rfl⟩

theorem Stmt.anyReturnsValue_concat {stmts : List Stmt} {s : Stmt} (quiet : s.returnsValue = false) :
    Stmt.anyReturnsValue (stmts ++ [s]) = Stmt.anyReturnsValue stmts := by
  induction stmts with
  | nil =>
    show (s.returnsValue || false) = false
    rw [quiet, Bool.false_or]
  | cons first rest ih =>
    rw [List.cons_append, Stmt.anyReturnsValue, Stmt.anyReturnsValue, ih]

/-- In a method that may hand back the absent value, returning it is in order. -/
theorem Stmt.check_give_absent (inside : scope.inMethod = true) (takes : scope.returns.Takes .none)
    {ts : Typed.Stmt} : (Stmt.give .absent).check scope = .ok ts ↔
      .ret .none (some (.literal .none .none)) = ts := by
  show checkReturn scope (some .absent) = .ok ts ↔ _
  rw [checkReturn_some]
  constructor
  · rintro ⟨-, _, ⟨⟩, -, rfl⟩
    rfl
  · rintro rfl
    exact ⟨inside, _, rfl, takes, rfl⟩

end Statements

/-! ## Methods that may hand back the absent value -/

theorem Method.closeEnd_keepsSignature : Method.KeepsSignature Method.closeEnd where
  name m := by
    unfold closeEnd
    split <;> rfl
  signature cls m := by
    unfold closeEnd
    split <;> rfl

theorem Method.check_closeEnd :
    Method.ChecksTo Method.closeEnd (fun _ => True) Typed.Method.closeEnd := by
  intro scope inside m tm'
  rw [true_and]
  by_cases valued : m.ret = .int ∨ m.ret = .bool
  · -- the method stays as it is
    have same {tm : Typed.Method} (passed : m.check scope = .ok tm) : tm.closeEnd = tm := by
      obtain ⟨⟨-, -, ret, -⟩, -⟩ := check_checked passed
      rw [Typed.Method.closeEnd, ret, if_pos valued]
    rw [closeEnd, if_pos valued]
    constructor
    · exact fun passed => ⟨tm', passed, same passed⟩
    · rintro ⟨tm, passed, rfl⟩
      rw [same passed]
      exact passed
  · have takes : m.ret.Takes .none := Ty.takes_none_iff.2 (not_or.1 valued)
    have last {inner : Scope} (opens : scope.Opens m.params m.ret m.definitions inner)
        {ts : Typed.Stmt} : (Stmt.give .absent).check inner = .ok ts ↔
          .ret .none (some (.literal .none .none)) = ts := by
      have enters := Scope.enterMethod_enters opens.enters
      refine Stmt.check_give_absent ?_ (enters.returns ▸ takes)
      rw [Scope.inMethod, enters.owner]
      exact inside
    rw [closeEnd, if_neg valued, check_eq_ok, Stmt.anyReturnsValue_concat rfl]
    constructor
    · rintro ⟨inner, opens, quiet, _, passed, returns, rfl⟩
      obtain ⟨statements, hs, t, ht, rfl⟩ := Stmt.checkAll_concat.1 passed
      cases (last opens).1 ht
      rw [Typed.bodyTy_concat rfl] at returns ⊢
      refine ⟨_, check_eq_ok.2 ⟨inner, opens, quiet, statements, hs, returns, rfl⟩, ?_⟩
      rw [Typed.Method.closeEnd, if_neg valued]
    · rintro ⟨_, passed, rfl⟩
      obtain ⟨inner, opens, quiet, statements, hs, returns, rfl⟩ := check_eq_ok.1 passed
      refine ⟨inner, opens, quiet, _, Stmt.checkAll_concat.2
        ⟨statements, hs, _, (last opens).2 rfl, rfl⟩, ?_⟩
      rw [Typed.bodyTy_concat rfl, Typed.Method.closeEnd, if_neg valued]
      exact ⟨returns, rfl⟩

theorem Method.closeEnd_return {m : Method} (absent : ¬(m.ret = .int ∨ m.ret = .bool)) :
    Stmt.Return m.closeEnd.statements := by
  rw [closeEnd, if_neg absent]
  refine Stmt.return_of_mem (List.mem_append_right _ List.mem_cons_self) fun path mem => ?_
  rw [List.mem_singleton.1 mem]
  rfl

/-! ## Methods that have to hand back a number or a truth value -/

section Valued

variable {scope : Scope} {m : Method}

theorem Stmt.bodyTy_of_falls_off {stmts : List Stmt} {typed : List Typed.Stmt}
    (passed : Stmt.checkAll scope stmts = .ok typed) (falls : ¬Stmt.Return stmts) :
    Typed.bodyTy typed = .none := by
  by_contra valued
  refine falls ?_
  rw [← Stmt.eraseAll_of_checkAll passed]
  exact Typed.Stmt.return_of_bodyTy (Stmt.checkAll_checked passed) valued

theorem Method.return_of_check {tm : Typed.Method} (passed : m.check scope = .ok tm)
    (valued : m.ret = .int ∨ m.ret = .bool) : Stmt.Return m.statements := by
  obtain ⟨inner, -, -, statements, hs, returns, -⟩ := check_eq_ok.1 passed
  by_contra falls
  rw [Stmt.bodyTy_of_falls_off hs falls, Ty.takes_none_iff] at returns
  exact valued.elim returns.1 returns.2

/-- The refusal, if there is nothing else against the method. -/
theorem Method.check_eq_missingReturn {inner : Scope}
    (opens : scope.Opens m.params m.ret m.definitions inner)
    (quiet : m.name = constructorName → Stmt.anyReturnsValue m.statements = false)
    {typed : List Typed.Stmt} (passed : Stmt.checkAll inner m.statements = .ok typed)
    (falls : ¬Stmt.Return m.statements) (valued : m.ret = .int ∨ m.ret = .bool) :
    m.check scope = .error (.missingReturn m.name) := by
  rw [check_of_passed opens quiet passed, Stmt.bodyTy_of_falls_off passed falls]
  unfold returnError
  rcases valued with isInt | isBool
  · rw [isInt]
    rfl
  · rw [isBool]
    rfl

end Valued

/-! ## Programs -/

theorem Program.return_of_check {p : Program} {tp : Typed.Program} {scope : Scope}
    (accepted : p.check = .ok (tp, scope)) {c : Class} (hc : c ∈ p.classes) {m : Method}
    (hm : m ∈ c.methods) (valued : m.ret = .int ∨ m.ret = .bool) : Stmt.Return m.statements := by
  obtain ⟨tm, passed⟩ := exists_check_of_mem accepted hc hm
  exact Method.return_of_check passed valued

theorem Program.closeEnds_accepted {p : Program} :
    (∃ r, p.closeEnds.check = .ok r) ↔ ∃ r, p.check = .ok r := by
  constructor
  · rintro ⟨⟨tq, scope⟩, passed⟩
    obtain ⟨-, tp, accepted, -⟩ :=
      (check_mapMethods Method.closeEnd_keepsSignature Method.check_closeEnd).1 passed
    exact ⟨_, accepted⟩
  · rintro ⟨⟨tp, scope⟩, accepted⟩
    exact ⟨_, (check_mapMethods Method.closeEnd_keepsSignature Method.check_closeEnd).2
      ⟨fun _ _ _ _ => trivial, tp, accepted, rfl⟩⟩

/-- Every path through a method that is declared to return a number or a truth value returns, if
the program passes, and a method of these types that lets control get to its end is refused for
that, if there is nothing else against it.  Every other method may end there: the program passes
exactly if it does with `return None` written at the end of each of them, where all methods
return. -/
theorem Program.only_references_fall_off (p : Program) :
    (∀ r, p.check = .ok r → ∀ c ∈ p.classes, ∀ m ∈ c.methods, m.ret = .int ∨ m.ret = .bool →
      Stmt.Return m.statements) ∧
    (∀ (scope inner : Scope) (m : Method) typed, m.ret = .int ∨ m.ret = .bool →
      scope.Opens m.params m.ret m.definitions inner →
      (m.name = constructorName → Stmt.anyReturnsValue m.statements = false) →
      Stmt.checkAll inner m.statements = .ok typed → ¬Stmt.Return m.statements →
      m.check scope = .error (.missingReturn m.name)) ∧
    ((∃ r, p.check = .ok r) ↔ ∃ r, p.closeEnds.check = .ok r) ∧
    ∀ r, p.closeEnds.check = .ok r → ∀ c ∈ p.closeEnds.classes, ∀ m ∈ c.methods,
      Stmt.Return m.statements := by
  refine ⟨fun r accepted c hc m hm => return_of_check accepted hc hm,
    fun scope inner m typed valued opens quiet passed falls =>
      Method.check_eq_missingReturn opens quiet passed falls valued,
    closeEnds_accepted.symm, ?_⟩
  intro r passed c hc m hm
  obtain ⟨c, hc', rfl⟩ := List.mem_map.1 hc
  obtain ⟨m, hm', rfl⟩ := List.mem_map.1 hm
  by_cases valued : m.ret = .int ∨ m.ret = .bool
  · -- left as it is, and checked as it is
    obtain ⟨⟨tp, scope⟩, accepted⟩ := closeEnds_accepted.1 ⟨r, passed⟩
    rw [Method.closeEnd, if_pos valued]
    exact return_of_check accepted hc' hm' valued
  · exact Method.closeEnd_return valued

/-- A method that is declared to return an object, and returns nothing. -/
def Program.vacant : Program where
  globals := []
  classes := [
    { name := "C"
      fields := []
      methods := [
        { name := "m"
          params := [⟨"self", .object "C"⟩]
          ret := .object "C"
          definitions := []
          statements := [.pass] }] }]
  body := []

theorem Program.vacant_passes :
    (∃ r, vacant.check = .ok r) ∧
    ¬∀ c ∈ vacant.classes, ∀ m ∈ c.methods, m.ret ≠ .none → Stmt.Return m.statements := by
  refine ⟨⟨_, rfl⟩, fun all => ?_⟩
  have returns : Stmt.Return [.pass] := all _ (.head _) _ (.head _) Ty.noConfusion
  cases returns [.pass] (.head _)

/-- The method `add` of `counter` returns early on one path and late on the other; the method of
`vacant` returns on its only path once its end is closed. -/
theorem Program.only_references_fall_off_counter :
    (∃ r, counter.check = .ok r) ∧
    (∀ c ∈ counter.classes, ∀ m ∈ c.methods, m.ret = .int → Stmt.Return m.statements) ∧
    (∃ r, vacant.closeEnds.check = .ok r) ∧
    ∀ c ∈ vacant.closeEnds.classes, ∀ m ∈ c.methods, Stmt.Return m.statements := by
  have accepted : ∃ r, counter.check = .ok r := ⟨_, rfl⟩
  obtain ⟨-, -, closes, returns⟩ := only_references_fall_off vacant
  obtain ⟨r, passed⟩ := closes.1 ⟨_, rfl⟩
  refine ⟨accepted, fun c hc m hm isInt => ?_, ⟨r, passed⟩, returns r passed⟩
  obtain ⟨r, accepted⟩ := accepted
  exact (only_references_fall_off counter).1 r accepted c hc m hm (Or.inl isInt)

end Source
end ClassLang
