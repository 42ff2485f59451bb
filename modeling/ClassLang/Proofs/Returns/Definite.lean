/-
Statements that control cannot get past.

A type other than `none` stands for statements that always return: every path through them does,
and so does every path through their code.  What stands behind the code of a method that is to hand
back a number or a truth value is never reached.
-/
import ClassLang.Proofs.Checker.Erasure
import ClassLang.Proofs.Compile
import ClassLang.Proofs.Returns.Paths

namespace ClassLang

namespace Typed

mutual

/-- A return, or a chain that has one in every arm. -/
inductive Stmt.Definite : Stmt → Prop
  | ret (ty : Ty) (value : Option Expr) : Stmt.Definite (.ret ty value)
  | branch (ty : Ty) {arm : Arm} (chain : Arm.Definite arm) : Stmt.Definite (.branch ty arm)

/-- The chain ends in an `else`, and no arm of it lets control past. -/
inductive Arm.Definite : Arm → Prop
  | last (ty : Ty) {body : List Stmt} {s : Stmt} (mem : s ∈ body) (definite : Stmt.Definite s) :
    Arm.Definite (.mk ty none body none)
  | both (ty : Ty) (condition : Expr) {body : List Stmt} {other : Arm} {s : Stmt} (mem : s ∈ body)
    (definite : Stmt.Definite s) (rest : Arm.Definite other) :
    Arm.Definite (.mk ty (some condition) body (some other))

end

/-! ## A type shows that there is a return -/

theorem bodyTy_eq_none {stmts : List Stmt} (h : ∀ s ∈ stmts, s.ty = .none) :
    bodyTy stmts = .none := by
  rcases bodyTy_cases stmts with absent | ⟨s, mem, eq⟩
  · exact absent
  · exact eq.symm.trans (h s mem)

theorem exists_of_bodyTy {stmts : List Stmt} (valued : bodyTy stmts ≠ .none) :
    ∃ s ∈ stmts, s.ty ≠ .none := by
  by_contra none
  exact valued (bodyTy_eq_none fun s mem => by_contra fun other => none ⟨s, mem, other⟩)

theorem armTy?_valued {hasCondition : Bool} {alternative : Option Ty} {body ty : Ty}
    (merged : armTy? hasCondition alternative body = some ty) (valued : ty ≠ .none) :
    body ≠ .none ∧ (hasCondition = true → ∃ other ∈ alternative, other ≠ .none) := by
  unfold armTy? at merged
  split at merged
  · exact ⟨Option.some.inj merged ▸ valued, Bool.noConfusion⟩
  · exact absurd (Option.some.inj merged).symm valued
  · next other =>
    split at merged
    · exact absurd (Option.some.inj merged).symm valued
    · next neither =>
      rw [not_or] at neither
      exact ⟨neither.1, fun _ => ⟨other, rfl, neither.2⟩⟩
  · cases merged

mutual

theorem Stmt.Checked.definite {scope : Scope} {s : Stmt} (h : s.Checked scope)
    (valued : s.ty ≠ .none) : s.Definite := by
  cases h with
  | assign | expr | pass => exact absurd rfl valued
  | bareRet => exact .ret _ _
  | ret => exact .ret _ _
  | branch checked => exact .branch _ (Arm.Checked.definite checked valued)

theorem Arm.Checked.definite {scope : Scope} {arm : Arm} (h : arm.Checked scope)
    (valued : arm.ty ≠ .none) : arm.Definite := by
  cases h with
  | @mk ty condition body alternative test other block merged =>
    obtain ⟨bodyValued, alternativeValued⟩ := armTy?_valued merged valued
    obtain ⟨s, mem, stays⟩ := exists_of_bodyTy bodyValued
    have definite := Stmt.Checked.definite (block s mem) stays
    cases condition with
    | none =>
      obtain ⟨last, -⟩ := armTy?_else merged
      cases Option.map_eq_none_iff.1 last
      exact .last ty mem definite
    | some e =>
      obtain ⟨otherTy, there, otherValued⟩ := alternativeValued rfl
      obtain ⟨arm, rfl, rfl⟩ := Option.map_eq_some_iff.1 there
      exact .both ty e mem definite (Arm.Checked.definite (other arm rfl) otherValued)

end

/-! ## Nothing gets past it -/

theorem Stmt.mem_eraseAll {s : Stmt} {stmts : List Stmt} (mem : s ∈ stmts) :
    s.erase ∈ Stmt.eraseAll stmts := by
  induction stmts with
  | nil => cases mem
  | cons first rest ih =>
    rw [Stmt.eraseAll]
    rcases List.mem_cons.1 mem with rfl | mem
    · exact List.mem_cons_self
    · exact List.mem_cons_of_mem _ (ih mem)

mutual

theorem Stmt.Definite.paths_end {s : Stmt} (h : s.Definite) :
    AllEnd Source.Stmt.isRet s.erase.paths := by
  cases h with
  | ret ty value => exact fun path mem => List.mem_singleton.1 mem ▸ rfl
  | branch ty chain => exact Arm.Definite.paths_end chain

theorem Arm.Definite.paths_end {arm : Arm} (h : arm.Definite) :
    AllEnd Source.Stmt.isRet arm.erase.paths := by
  cases h with
  | last ty mem definite =>
    -- the recursion is on the size of the tree
    have smaller := List.sizeOf_lt_of_mem mem
    exact Source.Stmt.return_of_mem (Stmt.mem_eraseAll mem) (Stmt.Definite.paths_end definite)
  | both ty condition mem definite rest =>
    have smaller := List.sizeOf_lt_of_mem mem
    have yes := Source.Stmt.return_of_mem (Stmt.mem_eraseAll mem) (Stmt.Definite.paths_end definite)
    have no := Arm.Definite.paths_end rest
    intro path taken
    rcases List.mem_append.1 taken with taken | taken
    · exact yes path taken
    · exact no path taken

end

theorem Stmt.return_of_bodyTy {scope : Scope} {stmts : List Stmt}
    (checked : ∀ s ∈ stmts, s.Checked scope) (valued : bodyTy stmts ≠ .none) :
    Source.Stmt.Return (Stmt.eraseAll stmts) := by
  obtain ⟨s, mem, stays⟩ := exists_of_bodyTy valued
  exact Source.Stmt.return_of_mem (Stmt.mem_eraseAll mem) ((checked s mem).definite stays).paths_end

section Lowering

variable {scope : Scope} {bare : BareReturn} {code : Code}

theorem returns_of_lowerReturn {value : Option Expr}
    (lowered : lowerReturn scope bare value = .ok code) : Code.Returns code := by
  cases inside : scope.inMethod with
  | false =>
    unfold lowerReturn at lowered
    rw [inside] at lowered
    cases lowered
  | true =>
    have ends : ∃ front, front ++ [Instr.ret] = code := by
      cases value with
      | none =>
        cases (lowerReturn_none inside).1 lowered
        cases bare <;> exact ⟨[_], rfl⟩
      | some e =>
        rcases (lowerReturn_some inside).1 lowered with ⟨-, rfl⟩ | ⟨-, c, -, rfl⟩
        · cases bare <;> exact ⟨[_], rfl⟩
        · exact ⟨c, rfl⟩
    obtain ⟨front, rfl⟩ := ends
    exact Code.returns_ret.append_right front

/-- Code of statements always returns if that of one of them does. -/
theorem Stmt.returns_of_mem {s : Stmt} {stmts : List Stmt} (mem : s ∈ stmts)
    (h : ∀ c, s.lower scope bare = .ok c → Code.Returns c)
    (lowered : Stmt.lowerAll scope bare stmts = .ok code) : Code.Returns code := by
  induction stmts generalizing code with
  | nil => cases mem
  | cons first rest ih =>
    obtain ⟨c, hc, cs, hcs, rfl⟩ := Stmt.lowerAll_cons.1 lowered
    rcases List.mem_cons.1 mem with rfl | mem
    · exact (h c hc).append_left cs
    · exact (ih mem hcs).append_right c

mutual

theorem Stmt.Definite.returns {s : Stmt} (h : s.Definite) {code : Code}
    (lowered : s.lower scope bare = .ok code) : Code.Returns code := by
  cases h with
  | ret ty value => exact returns_of_lowerReturn lowered
  | branch ty chain => exact Arm.Definite.returns chain lowered

theorem Arm.Definite.returns {arm : Arm} (h : arm.Definite) {code : Code}
    (lowered : arm.lower scope bare = .ok code) : Code.Returns code := by
  cases h with
  | last ty mem definite =>
    exact Stmt.returns_of_mem mem (fun _ => Stmt.Definite.returns definite)
      (Arm.lower_else.1 lowered)
  | both ty condition mem definite rest =>
    obtain ⟨yes, hyes, no, hno, c, -, rfl⟩ := Arm.lower_if.1 lowered
    obtain ⟨other, hother, rfl⟩ := Arm.lowerAlternative_some.1 hno
    have yesReturns := Stmt.returns_of_mem mem (fun _ => Stmt.Definite.returns definite) hyes
    have noReturns := Arm.Definite.returns rest hother
    exact (Code.returns_branch yesReturns noReturns).append_right c

end

theorem Stmt.returns_of_bodyTy {checker : Scope} {stmts : List Stmt}
    (checked : ∀ s ∈ stmts, s.Checked checker) (valued : bodyTy stmts ≠ .none)
    (lowered : Stmt.lowerAll scope bare stmts = .ok code) : Code.Returns code := by
  obtain ⟨s, mem, stays⟩ := exists_of_bodyTy valued
  exact Stmt.returns_of_mem mem (fun _ => ((checked s mem).definite stays).returns) lowered

end Lowering

/-! ## Methods -/

theorem Method.Checked.bodyTy_ne_none {scope inner : Scope} {m : Method}
    (checked : m.Checked scope inner) (valued : m.ret = .int ∨ m.ret = .bool) :
    Typed.bodyTy m.statements ≠ .none := by
  intro none
  obtain ⟨notInt, notBool⟩ := Ty.takes_none_iff.1 (none ▸ checked.returns)
  exact valued.elim notInt notBool

theorem Method.Shows.bare_zero {cls : String} {m : Method} {signature : Signature}
    (shows : m.Shows cls signature) (valued : m.ret ≠ .none) : m.bare = .zero := by
  obtain ⟨rest, -, ⟨-, -, absent, -⟩ | ⟨ordinary, -⟩⟩ := shows
  · exact absurd absent valued
  · exact Method.bare_of_ordinary ordinary

/-- Control gets to the end of no method that has to hand back a number or a truth value. -/
theorem Program.Checked.method_returns {scope : Scope} {p : Program} (checked : p.Checked scope)
    {c : Class} (hc : c ∈ p.classes) {m : Method} (hm : m ∈ c.methods)
    (valued : m.ret = .int ∨ m.ret = .bool) {f : Func}
    (lowers : m.Lowers (scope.enterClass c.name) c.name f) :
    ∃ front, f.body = front ++ BareReturn.zero.code ∧ Code.Returns front ∧
      Code.paths f.body = Code.paths front := by
  obtain ⟨inner, code, -, lowered, rfl⟩ := lowers
  obtain ⟨info, shows, -⟩ := checked.classes.found c hc
  obtain ⟨signature, shown, -⟩ := shows.methods.found m hm
  have bare : m.bare = .zero := by
    refine shown.bare_zero ?_
    rcases valued with isInt | isBool
    · rw [isInt]
      exact Ty.noConfusion
    · rw [isBool]
      exact Ty.noConfusion
  obtain ⟨inner', checkedMethod⟩ := (checked.bodies c hc).methods m hm
  have returns : Code.Returns code :=
    Stmt.returns_of_bodyTy checkedMethod.statements (checkedMethod.bodyTy_ne_none valued) lowered
  have front := returns.append_right (initLocals m.definitions)
  have body : (m.func c.name code).body =
      initLocals m.definitions ++ code ++ BareReturn.zero.code := by
    rw [Method.func, bare]
  exact ⟨_, body, front, by rw [body, front.paths_eq]⟩

end Typed

namespace Source

/-- Checked statements with a type other than `none` always return, and so does their code.  In the
module of a checked program no path through a method that is declared to return a number or a truth
value gets to the return that stands at its end. -/
theorem Program.definite_return :
    (∀ scope stmts typed, Stmt.checkAll scope stmts = .ok typed → Typed.bodyTy typed ≠ .none →
      Stmt.Return stmts ∧ ∀ inner bare code, Typed.Stmt.lowerAll inner bare typed = .ok code →
        Code.Returns code) ∧
    ∀ p tp scope, Program.check p = .ok (tp, scope) →
      ∃ laid m, scope.withLayouts tp = .ok laid ∧ p.toModule = .ok m ∧
        ∀ c ∈ p.classes, ∀ method ∈ c.methods, method.ret = .int ∨ method.ret = .bool →
          ∃ tc ∈ tp.classes, ∃ tm ∈ tc.methods, tc.erase = c ∧ tm.erase = method ∧
            ∃ f ∈ m.functions,
              (∀ g, (tm.lower (laid.enterClass c.name) c.name).run g = .ok f .zero) ∧
                ∃ front, f.body = front ++ [.const 0, .ret] ∧ Code.Returns front ∧
                  Code.paths f.body = Code.paths front := by
  refine ⟨fun scope stmts typed passed valued => ?_, fun p tp scope accepted => ?_⟩
  · have checked := Stmt.checkAll_checked passed
    rw [← Stmt.eraseAll_of_checkAll passed]
    exact ⟨Typed.Stmt.return_of_bodyTy checked valued,
      fun _ _ _ => Typed.Stmt.returns_of_bodyTy checked valued⟩
  · obtain ⟨laid, pass, -, checked, lays⟩ := Scope.withLayouts_ok (check_checked accepted)
    obtain ⟨m, g, run⟩ := checked.lower_ok lays .zero
    refine ⟨laid, m, pass, toModule_of_run accepted pass run, ?_⟩
    rw [← Program.erase_of_check accepted]
    intro c hc method hm valued
    obtain ⟨tc, htc, rfl⟩ := List.mem_map.1 hc
    obtain ⟨tm, htm, rfl⟩ := List.mem_map.1 hm
    obtain ⟨f, hf, lowers⟩ := (Typed.Program.lower_lowers run).exists_method htc htm
    exact ⟨tc, htc, tm, htm, rfl, rfl, f, hf, lowers.run,
      checked.method_returns htc htm valued lowers⟩

/-- One path through `add` leaves early. -/
theorem Program.definite_return_counter :
    ∃ tp scope m, counter.check = .ok (tp, scope) ∧ counter.toModule = .ok m ∧
      ∃ c ∈ counter.classes, ∃ method ∈ c.methods, method.name = "add" ∧ method.ret = .int ∧
        ∃ f ∈ m.functions, ∃ front, f.body = front ++ [.const 0, .ret] ∧ Code.Returns front ∧
          Code.paths f.body = Code.paths front := by
  obtain ⟨⟨tp, scope⟩, accepted⟩ : ∃ r, counter.check = .ok r := ⟨_, rfl⟩
  obtain ⟨laid, m, -, compiled, methods⟩ := definite_return.2 counter tp scope accepted
  obtain ⟨tc, -, tm, -, -, -, f, mem, -, front, body, returns, unreached⟩ :=
    methods _ (.head _) _ (.tail _ (.head _)) (Or.inl rfl)
  exact ⟨tp, scope, m, accepted, compiled, _, .head _, _, .tail _ (.head _), rfl, rfl, f, mem,
    front, body, returns, unreached⟩

end Source
end ClassLang
