/-
Parentheses leave no trace in code.

A checked program and the program stripped of its parentheses have the same module.
-/
import ClassLang.Proofs.Checker.Expressions
import ClassLang.Proofs.Checker.Erasure
import ClassLang.Proofs.Checker.Parens
import ClassLang.Proofs.Compile
import ClassLang.Proofs.Lowering.Compiled

namespace ClassLang

namespace Typed

section Lowering

variable {checker scope : Scope} {bare : BareReturn}

theorem Expr.lowerAll_unparenAll {es : List Expr}
    (h : ∀ e ∈ es, e.unparen.lower scope = e.lower scope) :
    Expr.lowerAll scope (Expr.unparenAll es) = Expr.lowerAll scope es := by
  induction es with
  | nil => rfl
  | cons e rest ih =>
    obtain ⟨first, others⟩ := List.forall_mem_cons.1 h
    rw [Expr.unparenAll, Expr.lowerAll, Expr.lowerAll, first, ih others]

/-- No expression of a checked tree has the type that the generator refuses, so it never gets to
show the outline of one. -/
theorem Expr.Checked.lower_unparen (concrete : checker.Concrete) {e : Expr}
    (h : e.Checked checker) : e.unparen.lower scope = e.lower scope := by
  induction h with
  | literal | id | construct => rfl
  | unary checked operand ih =>
    have typed := (Checked.unary checked operand).ty_ne_any concrete
    rw [Expr.unparen, Expr.lower, Expr.lower, ih, if_neg typed]
    exact if_neg typed
  | binary left right operands ihl ihr =>
    have typed := (Checked.binary left right operands).ty_ne_any concrete
    rw [Expr.unparen, Expr.lower, Expr.lower, ihl, ihr, if_neg typed]
    exact if_neg typed
  | paren checked ih =>
    have typed := (Checked.paren checked).ty_ne_any concrete
    rw [Expr.unparen, Expr.lower, if_neg typed, ih]
  | call found checked passed ih =>
    have typed := (Checked.call found checked passed).ty_ne_any concrete
    rw [Expr.unparen, Expr.lower, Expr.lower, Expr.lowerAll_unparenAll ih,
      Expr.tys_unparenAll checked, if_neg typed]
    exact if_neg typed
  | methodCall receiver object found ordinary method checked passed ihr ih =>
    have typed :=
      (Checked.methodCall receiver object found ordinary method checked passed).ty_ne_any concrete
    rw [Expr.unparen, Expr.lower, Expr.lower, receiver.ty_unparen, ihr,
      Expr.lowerAll_unparenAll ih, Expr.length_unparenAll, if_neg typed]
    exact if_neg typed
  | field receiver object found field ih =>
    have typed := (Checked.field receiver object found field).ty_ne_any concrete
    rw [Expr.unparen, Expr.lower, Expr.lower, receiver.ty_unparen, ih, if_neg typed]
    exact if_neg typed

theorem LValue.lowerWrite_congr {value value' : Expr}
    (same : value'.lower scope = value.lower scope) (target : LValue) :
    target.lowerWrite scope value' = target.lowerWrite scope value := by
  cases target with
  | var ty name => rw [lowerWrite, lowerWrite, same]
  | field ty obj name => rw [lowerWrite, lowerWrite, same]

/-- Outside constructors every returned value is lowered in the same way. -/
theorem lowerReturn_zero (e : Expr) :
    lowerReturn scope .zero (some e) = do
      if !scope.inMethod then throw (.internal .returnOutsideMethod)
      let code ← e.lower scope
      return code ++ [.ret] := by
  cases e with
  | literal ty value => cases value <;> rfl
  | _ => rfl

theorem Expr.eq_of_erase_absent {e : Expr} (h : e.erase = .absent) : ∃ ty, e = .literal ty .none := by
  cases e with
  | literal ty value =>
    cases h
    exact ⟨ty, rfl⟩
  | _ => cases h

/-- Where a return is lowered as that of a constructor, it returns the absent value, and that
without parentheses. -/
def Quiet (scope : Scope) (bare : BareReturn) (returned : List Source.Expr) : Prop :=
  scope.inMethod = true → bare = .self → ∀ e ∈ returned, e = .absent

theorem quiet_append {first second : List Source.Expr} :
    Quiet scope bare (first ++ second) ↔ Quiet scope bare first ∧ Quiet scope bare second := by
  simp only [Quiet, List.forall_mem_append]
  exact ⟨fun h => ⟨fun i s => (h i s).1, fun i s => (h i s).2⟩, fun h i s => ⟨h.1 i s, h.2 i s⟩⟩

theorem lowerReturn_unparen {e : Expr} (same : e.unparen.lower scope = e.lower scope)
    (quiet : Quiet scope bare [e.erase]) :
    lowerReturn scope bare (some e.unparen) = lowerReturn scope bare (some e) := by
  cases inside : scope.inMethod with
  | false =>
    unfold lowerReturn
    rw [inside]
    rfl
  | true =>
    cases bare with
    | zero => rw [lowerReturn_zero, lowerReturn_zero, same]
    | self =>
      obtain ⟨ty, rfl⟩ := Expr.eq_of_erase_absent (quiet inside rfl _ List.mem_cons_self)
      rfl

mutual

theorem Stmt.Checked.lower_unparen (concrete : checker.Concrete) {s : Stmt}
    (h : s.Checked checker) (quiet : Quiet scope bare s.erase.returned) :
    s.unparen.lower scope bare = s.lower scope bare := by
  cases h with
  | assign _ checked => exact LValue.lowerWrite_congr (checked.lower_unparen concrete) _
  | expr checked => rw [Stmt.unparen, Stmt.lower, Stmt.lower, checked.lower_unparen concrete]
  | bareRet => rfl
  | ret _ checked => exact lowerReturn_unparen (checked.lower_unparen concrete) quiet
  | branch checked => exact Arm.Checked.lower_unparen concrete checked quiet
  | pass => rfl

theorem Arm.Checked.lower_unparen (concrete : checker.Concrete) {arm : Arm}
    (h : arm.Checked checker) (quiet : Quiet scope bare arm.erase.returned) :
    arm.unparen.lower scope bare = arm.lower scope bare := by
  cases h with
  | @mk ty condition body alternative test other block merged =>
    obtain ⟨quietBody, quietOther⟩ := quiet_append.1 quiet
    rw [Arm.unparen, Arm.lower, Arm.lower, Stmt.lowerAll_unparen concrete block quietBody,
      Arm.lowerAlternative_unparen concrete other quietOther]
    cases condition with
    | none => cases alternative <;> rfl
    | some e =>
      rw [Option.map_some]
      simp only [(test e rfl).1.lower_unparen concrete]

theorem Arm.lowerAlternative_unparen (concrete : checker.Concrete) {alternative : Option Arm}
    (h : ∀ arm ∈ alternative, arm.Checked checker)
    (quiet : Quiet scope bare
      (Source.Arm.alternativeReturned (Arm.eraseAlternative alternative))) :
    Arm.lowerAlternative scope bare (Arm.unparenAlternative alternative) =
      Arm.lowerAlternative scope bare alternative := by
  cases alternative with
  | none => rfl
  | some arm =>
    rw [Arm.unparenAlternative, Arm.lowerAlternative, Arm.lowerAlternative,
      Arm.Checked.lower_unparen concrete (h arm rfl) quiet]

theorem Stmt.lowerAll_unparen (concrete : checker.Concrete) {stmts : List Stmt}
    (h : ∀ s ∈ stmts, s.Checked checker)
    (quiet : Quiet scope bare (Source.Stmt.returnedOf (Stmt.eraseAll stmts))) :
    Stmt.lowerAll scope bare (Stmt.unparenAll stmts) = Stmt.lowerAll scope bare stmts := by
  cases stmts with
  | nil => rfl
  | cons s rest =>
    obtain ⟨first, others⟩ := List.forall_mem_cons.1 h
    obtain ⟨quietFirst, quietRest⟩ := quiet_append.1 quiet
    rw [Stmt.unparenAll, Stmt.lowerAll, Stmt.lowerAll,
      Stmt.Checked.lower_unparen concrete first quietFirst,
      Stmt.lowerAll_unparen concrete others quietRest]

end

end Lowering

/-! ## Programs -/

/-- A constructor returns nothing but the absent value, and that without parentheses. -/
def Method.Quiet (m : Method) : Prop :=
  m.isConstructor = true → ∀ e ∈ Source.Stmt.returnedOf (Stmt.eraseAll m.statements), e = .absent

theorem mapM_congr {μ : Type → Type} [Monad μ] [LawfulMonad μ] {α β : Type} {f g : α → μ β}
    {l : List α} (same : ∀ a ∈ l, f a = g a) : l.mapM f = l.mapM g := by
  induction l with
  | nil => rfl
  | cons a l ih =>
    obtain ⟨first, rest⟩ := List.forall_mem_cons.1 same
    rw [List.mapM_cons, List.mapM_cons, first, ih rest]

theorem Method.lower_eq (scope : Scope) (cls : String) (m : Method) :
    m.lower scope cls = do
      let inner ← MonadExcept.ofExcept <|
        scope.enterMethod m.ret m.params (m.definitions.map fun v => ⟨v.name, v.ty⟩)
      set m.bare
      let code ← MonadExcept.ofExcept (Stmt.lowerAll inner m.bare m.statements)
      set BareReturn.zero
      return m.func cls code :=
  rfl

theorem Method.Checked.lower_unparen {checker inner : Scope} (concrete : checker.Concrete)
    {m : Method} (checked : m.Checked checker inner) (quiet : m.Quiet) (scope : Scope)
    (cls : String) : m.unparen.lower scope cls = m.lower scope cls := by
  have within : inner.Concrete :=
    concrete.enterMethod (Scope.enterMethod_enters checked.enters) fun _ mem =>
      checked.variables_ne_any mem
  have statements (scope : Scope) :
      Stmt.lowerAll scope m.unparen.bare m.unparen.statements =
        Stmt.lowerAll scope m.bare m.statements := by
    exact Stmt.lowerAll_unparen within checked.statements fun _ self =>
      quiet (Method.bare_self self)
  rw [Method.lower_eq, Method.lower_eq]
  simp only [statements]
  rfl

theorem Class.Checked.lower_unparen {checker : Scope} (concrete : checker.Concrete) {c : Class}
    (checked : c.Checked checker) (quiet : ∀ m ∈ c.methods, m.Quiet) (scope : Scope) :
    (c.mapMethods Method.unparen).lower scope = c.lower scope := by
  have methods (inner : Scope) :
      (c.methods.map Method.unparen).mapM (·.lower inner c.name) =
        c.methods.mapM (·.lower inner c.name) := by
    rw [List.mapM_map]
    refine mapM_congr fun m mem => ?_
    obtain ⟨_, checked⟩ := checked.methods m mem
    exact checked.lower_unparen (concrete.enterClass c.name) (quiet m mem) inner c.name
  simp only [Class.lower, Class.mapMethods, methods]
  rfl

theorem endsInExpr_unparenAll (stmts : List Stmt) :
    endsInExpr (Stmt.unparenAll stmts) = endsInExpr stmts := by
  unfold endsInExpr
  rw [Stmt.unparenAll_eq_map, List.getLast?_map]
  cases stmts.getLast? with
  | none => rfl
  | some s => cases s <;> rfl

theorem Program.Checked.lower_unparen {checker scope : Scope} {p : Program}
    (checked : p.Checked checker) (quiet : ∀ c ∈ p.classes, ∀ m ∈ c.methods, m.Quiet)
    (outside : scope.inMethod = false) : p.unparen.lower scope = p.lower scope := by
  have classes : (p.classes.map (·.mapMethods Method.unparen)).mapM (·.lower scope) =
      p.classes.mapM (·.lower scope) := by
    rw [List.mapM_map]
    exact mapM_congr fun c mem =>
      (checked.bodies c mem).lower_unparen checked.concrete (quiet c mem) scope
  have body (bare : BareReturn) : Stmt.lowerAll scope bare (Stmt.unparenAll p.body) =
      Stmt.lowerAll scope bare p.body :=
    Stmt.lowerAll_unparen checked.concrete checked.body fun inside => by
      rw [outside] at inside
      cases inside
  simp only [Program.lower, Program.lowerEntry, Program.unparen, Program.mapMethods, classes, body,
    endsInExpr_unparenAll]

theorem Program.withLayouts_unparen (scope : Scope) (p : Program) :
    scope.withLayouts p.unparen = scope.withLayouts p := by
  rw [Scope.withLayouts, Program.unparen, Program.mapMethods, List.foldlM_map]
  rfl

end Typed

namespace Source

variable {scope : Scope}

theorem Method.quiet_of_check {m : Method} {tm : Typed.Method} (passed : m.check scope = .ok tm) :
    tm.Quiet := by
  obtain ⟨inner, -, quiet, statements, hs, -, rfl⟩ := check_eq_ok.1 passed
  intro constructor
  rw [Stmt.eraseAll_of_checkAll hs]
  exact (Stmt.anyReturnsValue_eq_false _).1 (quiet (of_decide_eq_true constructor))

theorem Program.quiet_of_check {p : Program} {tp : Typed.Program}
    (accepted : p.check = .ok (tp, scope)) : ∀ tc ∈ tp.classes, ∀ tm ∈ tc.methods, tm.Quiet := by
  intro tc htc tm htm
  obtain ⟨-, -, classes, -⟩ := check_parts accepted
  obtain ⟨c, -, passed⟩ := exists_left_of_forall₂ classes htc
  obtain ⟨-, -, methods⟩ := Class.check_parts passed
  obtain ⟨m, -, passed⟩ := exists_left_of_forall₂ methods htm
  exact Method.quiet_of_check passed

theorem Program.check_unparen_of_check {p : Program} {tp : Typed.Program}
    (accepted : p.check = .ok (tp, scope)) : p.unparen.check = .ok (tp.unparen, scope) := by
  rw [check_unparen (unwrapped_of_check accepted), accepted]
  rfl

theorem Program.compile_unparen {p : Program} (unwrapped : p.Unwrapped) :
    p.unparen.compile = p.compile := by
  cases accepted : p.check with
  | error e =>
    have refused : p.unparen.check = .error e := by
      rw [check_unparen unwrapped, accepted]
      rfl
    rw [compile_of_check_error refused, compile_of_check_error accepted]
  | ok r =>
    obtain ⟨tp, scope⟩ := r
    obtain ⟨laid, pass, -, checked, -⟩ := Scope.withLayouts_ok (check_checked accepted)
    have outside : laid.inMethod = false := by
      rw [Scope.inMethod, checked.owner]
      rfl
    have stripped := check_unparen_of_check accepted
    have pass' : scope.withLayouts tp.unparen = .ok laid := by
      rw [Typed.Program.withLayouts_unparen, pass]
    rw [compile, compile, toModule_eq_answer accepted pass, toModule_eq_answer stripped pass',
      checked.lower_unparen (quiet_of_check accepted) outside]

/-- A program passes exactly if it does without its parentheses, where constructors do not put
them around a returned `None`.  On that condition the checker and the compiler answer the same, and
the same errors as well.  The checked tree is the stripped one then: it has the expressions that are
not parenthesized, one for one, and each of its own type. -/
theorem Program.parens_transparent (p : Program) :
    ((∃ r, p.check = .ok r) ↔ (∃ r, p.unparen.check = .ok r) ∧ p.Unwrapped) ∧
    (p.Unwrapped → p.unparen.check = p.check.map (fun r => (r.1.unparen, r.2)) ∧
      p.unparen.compile = p.compile) ∧
    ∀ tp scope, p.check = .ok (tp, scope) →
      p.unparen.check = .ok (tp.unparen, scope) ∧ tp.unparen.ty = tp.ty ∧
        tp.unparen.expressions = Typed.Expr.strip tp.expressions ∧
          ∀ e ∈ tp.expressions, e.unparen.ty = e.ty := by
  refine ⟨⟨?_, ?_⟩, fun unwrapped => ⟨check_unparen unwrapped, compile_unparen unwrapped⟩, ?_⟩
  · rintro ⟨⟨tp, scope⟩, accepted⟩
    exact ⟨⟨_, check_unparen_of_check accepted⟩, unwrapped_of_check accepted⟩
  · rintro ⟨⟨r, passed⟩, unwrapped⟩
    rw [check_unparen unwrapped] at passed
    cases accepted : p.check with
    | error e =>
      rw [accepted] at passed
      cases passed
    | ok r => exact ⟨r, rfl⟩
  · intro tp scope accepted
    refine ⟨check_unparen_of_check accepted, rfl, tp.expressions_unparen, fun e mem => ?_⟩
    obtain ⟨inner, checked⟩ := (check_checked accepted).expressions_checked e mem
    exact checked.ty_unparen

/-- A class with one field and the given constructor and statements after it. -/
def Program.bracketed (value : Expr) : Program where
  globals := []
  classes := [
    { name := "C"
      fields := [⟨"n", .int, .int 0⟩]
      methods := [
        { name := constructorName
          params := [⟨"self", .object "C"⟩]
          ret := .none
          definitions := []
          statements := [
            .assign (.field (.var "self") "n") (.paren (.binary .add (.paren (.int 1)) (.int 2))),
            .give value] }] }]
  body := [.expr (.paren (.field (.paren (.call "C" [])) "n"))]

/-- The constructor returns `(None)`. -/
theorem Program.bracketed_none_refused :
    (Program.bracketed (.paren .absent)).check = .error (.constructorReturnsValue "C") ∧
    ¬((∃ r, (bracketed (.paren .absent)).check = .ok r) ↔
      ∃ r, (bracketed (.paren .absent)).unparen.check = .ok r) := by
  have refused : (bracketed (.paren .absent)).check = .error (.constructorReturnsValue "C") := rfl
  refine ⟨refused, fun same => ?_⟩
  obtain ⟨r, passed⟩ := same.2 ⟨_, rfl⟩
  rw [refused] at passed
  cases passed

/-- It returns `None`, and there are parentheses elsewhere. -/
theorem Program.parens_transparent_bracketed :
    (∃ r, (Program.bracketed .absent).check = .ok r) ∧
    (∃ r, (Program.bracketed .absent).unparen.check = .ok r) ∧
    (bracketed .absent).unparen.compile = (bracketed .absent).compile := by
  have accepted : ∃ r, (bracketed .absent).check = .ok r := ⟨_, rfl⟩
  obtain ⟨passes, same, -⟩ := parens_transparent (bracketed .absent)
  obtain ⟨stripped, unwrapped⟩ := passes.1 accepted
  exact ⟨accepted, stripped, (same unwrapped).2⟩

end Source
end ClassLang
