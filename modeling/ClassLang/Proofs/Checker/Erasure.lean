/-
Checked trees and the trees that they annotate.

Without its annotations a checked tree is the tree that was handed in, and of a tree that keeps to
the rules the checker makes that same tree again.  So the rules alone say what passes: the trees
that keep to them and, without annotations, are the ones handed in.
-/
import ClassLang.Proofs.Checker.Program
import ClassLang.Typed.Erase

namespace ClassLang

namespace Source

variable {scope : Scope}

/-! ## Checking loses nothing -/

mutual

theorem Expr.erase_of_check {e : Expr} {te : Typed.Expr} (h : e.check scope = .ok te) :
    te.erase = e := by
  cases e with
  | literal value =>
    cases Expr.check_literal.1 h
    rfl
  | id name =>
    obtain ⟨binding, -, rfl⟩ := Expr.check_id.1 h
    rfl
  | unary op arg =>
    obtain ⟨a, ha, -, rfl⟩ := Expr.check_unary.1 h
    rw [Typed.Expr.erase, Expr.erase_of_check ha]
  | binary op lhs rhs =>
    obtain ⟨l, hl, r, hr, ty, -, rfl⟩ := Expr.check_binary.1 h
    rw [Typed.Expr.erase, Expr.erase_of_check hl, Expr.erase_of_check hr]
  | paren arg =>
    obtain ⟨a, ha, rfl⟩ := Expr.check_paren.1 h
    rw [Typed.Expr.erase, Expr.erase_of_check ha]
  | call name args =>
    -- one source form, two annotated ones
    cases found : scope.functions.get? name with
    | none =>
      obtain ⟨rfl, -, rfl⟩ := (Expr.check_construct found).1 h
      rfl
    | some signature =>
      obtain ⟨ts, hargs, -, rfl⟩ := (Expr.check_call found).1 h
      rw [Typed.Expr.erase, Expr.eraseAll_of_checkAll hargs]
  | methodCall obj name args =>
    obtain ⟨o, hobj, ts, hargs, cls, info, signature, -, -, -, -, -, rfl⟩ :=
      Expr.check_methodCall.1 h
    rw [Typed.Expr.erase, Expr.erase_of_check hobj, Expr.eraseAll_of_checkAll hargs]
  | field obj name =>
    obtain ⟨o, hobj, ty, -, rfl⟩ := Expr.check_field.1 h
    rw [Typed.Expr.erase, Expr.erase_of_check hobj]

theorem Expr.eraseAll_of_checkAll {es : List Expr} {tes : List Typed.Expr}
    (h : Expr.checkAll scope es = .ok tes) : Typed.Expr.eraseAll tes = es := by
  cases es with
  | nil =>
    cases h
    rfl
  | cons e rest =>
    obtain ⟨t, he, ts, hrest, rfl⟩ := Expr.checkAll_cons.1 h
    rw [Typed.Expr.eraseAll, Expr.erase_of_check he, Expr.eraseAll_of_checkAll hrest]

end

theorem LValue.erase_of_checkReceiver {target : LValue} {tt : Typed.LValue}
    (h : target.checkReceiver scope = .ok tt) : tt.erase = target := by
  induction target generalizing tt with
  | var name =>
    obtain ⟨binding, -, rfl⟩ := LValue.checkReceiver_var.1 h
    rfl
  | field obj name ih =>
    obtain ⟨o, hobj, ty, -, rfl⟩ := LValue.checkReceiver_field.1 h
    rw [Typed.LValue.erase, ih hobj]

theorem LValue.erase_of_check {target : LValue} {tt : Typed.LValue}
    (h : target.check scope = .ok tt) : tt.erase = target := by
  cases target with
  | var name =>
    obtain ⟨binding, -, -, rfl⟩ := LValue.check_var.1 h
    rfl
  | field obj name => exact LValue.erase_of_checkReceiver h

theorem erase_of_checkCondition {condition : Option Expr} {test : Option Typed.Expr}
    (h : checkCondition scope condition = .ok test) : test.map (·.erase) = condition := by
  cases condition with
  | none =>
    cases h
    rfl
  | some e =>
    obtain ⟨t, he, -, rfl⟩ := checkCondition_some.1 h
    rw [Option.map_some, Expr.erase_of_check he]

theorem erase_of_checkReturn {value : Option Expr} {ts : Typed.Stmt}
    (h : checkReturn scope value = .ok ts) : ts.erase = .ret value := by
  cases value with
  | none =>
    obtain ⟨-, rfl⟩ := checkReturn_none.1 h
    rfl
  | some e =>
    obtain ⟨-, t, he, -, rfl⟩ := checkReturn_some.1 h
    rw [Typed.Stmt.erase, Option.map_some, Expr.erase_of_check he]

mutual

theorem Stmt.erase_of_check {s : Stmt} {ts : Typed.Stmt} (h : s.check scope = .ok ts) :
    ts.erase = s := by
  cases s with
  | assign lhs value =>
    obtain ⟨l, hl, v, hv, -, rfl⟩ := Stmt.check_assign.1 h
    rw [Typed.Stmt.erase, LValue.erase_of_check hl, Expr.erase_of_check hv]
  | expr e =>
    obtain ⟨t, he, rfl⟩ := Stmt.check_expr.1 h
    rw [Typed.Stmt.erase, Expr.erase_of_check he]
  | ret value => exact erase_of_checkReturn h
  | branch arm =>
    obtain ⟨a, ha, rfl⟩ := Stmt.check_branch.1 h
    rw [Typed.Stmt.erase, Arm.erase_of_check ha]
  | pass =>
    cases h
    rfl

theorem Arm.erase_of_check {arm : Arm} {ta : Typed.Arm} (h : arm.check scope = .ok ta) :
    ta.erase = arm := by
  cases arm with
  | mk condition body alternative =>
    obtain ⟨test, hc, other, ha, block, hb, ty, -, rfl⟩ := Arm.check_mk.1 h
    rw [Typed.Arm.erase, erase_of_checkCondition hc, Stmt.eraseAll_of_checkAll hb,
      Arm.erase_of_checkAlternative ha]

theorem Arm.erase_of_checkAlternative {alternative : Option Arm} {other : Option Typed.Arm}
    (h : Arm.checkAlternative scope alternative = .ok other) :
    Typed.Arm.eraseAlternative other = alternative := by
  cases alternative with
  | none =>
    cases h
    rfl
  | some arm =>
    obtain ⟨a, ha, rfl⟩ := Arm.checkAlternative_some.1 h
    rw [Typed.Arm.eraseAlternative, Arm.erase_of_check ha]

theorem Stmt.eraseAll_of_checkAll {ss : List Stmt} {tss : List Typed.Stmt}
    (h : Stmt.checkAll scope ss = .ok tss) : Typed.Stmt.eraseAll tss = ss := by
  cases ss with
  | nil =>
    cases h
    rfl
  | cons s rest =>
    obtain ⟨t, hs, ts, hrest, rfl⟩ := Stmt.checkAll_cons.1 h
    rw [Typed.Stmt.eraseAll, Stmt.erase_of_check hs, Stmt.eraseAll_of_checkAll hrest]

end

theorem Method.erase_of_check {m : Method} {tm : Typed.Method} (h : m.check scope = .ok tm) :
    tm.erase = m := by
  obtain ⟨inner, -, -, statements, hs, -, rfl⟩ := Method.check_eq_ok.1 h
  rw [Typed.Method.erase, Stmt.eraseAll_of_checkAll hs]

theorem Class.erase_of_check {c : Class} {tc : Typed.Class} (h : c.check scope = .ok tc) :
    tc.erase = c := by
  obtain ⟨-, methods, pass, rfl⟩ := Class.check_eq_ok.1 h
  have same : methods.map Typed.Method.erase = c.methods.map id :=
    map_eq_of_forall₂ pass fun m tm _ hm => Method.erase_of_check hm
  rw [Typed.Class.erase, same, List.map_id]

theorem Program.erase_of_check {p : Program} {tp : Typed.Program}
    (h : p.check = .ok (tp, scope)) : tp.erase = p := by
  obtain ⟨-, -, classes, pass, body, last, rfl⟩ := Program.check_eq_ok.1 h
  have same : classes.map Typed.Class.erase = p.classes.map id :=
    map_eq_of_forall₂ pass fun c tc _ hc => Class.erase_of_check hc
  rw [Typed.Program.erase, same, List.map_id, Stmt.eraseAll_of_checkAll last]

end Source

/-! ## Trees that keep to the rules pass -/

namespace Typed

variable {scope : Scope}

theorem Expr.checkAll_eraseAll {es : List Expr}
    (h : ∀ e ∈ es, e.erase.check scope = .ok e) :
    Source.Expr.checkAll scope (Expr.eraseAll es) = .ok es := by
  induction es with
  | nil => rfl
  | cons e rest ih =>
    obtain ⟨first, others⟩ := List.forall_mem_cons.1 h
    exact Source.Expr.checkAll_cons.2 ⟨e, first, rest, ih others, rfl⟩

theorem Expr.Checked.check_erase {e : Expr} (h : e.Checked scope) :
    e.erase.check scope = .ok e := by
  induction h with
  | literal value => exact Source.Expr.check_literal.2 rfl
  | id found => exact Source.Expr.check_id.2 ⟨_, found, rfl⟩
  | unary _ operand ih => exact Source.Expr.check_unary.2 ⟨_, ih, operand, rfl⟩
  | binary _ _ operands ihl ihr =>
    exact Source.Expr.check_binary.2 ⟨_, ihl, _, ihr, _, operands, rfl⟩
  | paren _ ih => exact Source.Expr.check_paren.2 ⟨_, ih, rfl⟩
  | call found _ passed ih =>
    exact (Source.Expr.check_call found).2 ⟨_, Expr.checkAll_eraseAll ih, passed, rfl⟩
  | construct found notFunction =>
    exact (Source.Expr.check_construct notFunction).2 ⟨rfl, ⟨_, found⟩, rfl⟩
  | methodCall _ object found ordinary method _ passed ihr ih =>
    exact Source.Expr.check_methodCall.2 ⟨_, ihr, _, Expr.checkAll_eraseAll ih, _, _, _, object,
      found, ordinary, method, passed, rfl⟩
  | field _ object found field ih =>
    exact Source.Expr.check_field.2 ⟨_, ih, _, ⟨_, _, object, found, field⟩, rfl⟩

end Typed

namespace Source

theorem Expr.check_eq_ok_iff {scope : Scope} {e : Expr} {te : Typed.Expr} :
    e.check scope = .ok te ↔ te.Checked scope ∧ te.erase = e :=
  ⟨fun h => ⟨Expr.check_checked h, Expr.erase_of_check h⟩, fun ⟨checked, eq⟩ =>
    eq ▸ checked.check_erase⟩

/-- A checked program without its annotations is the program that was handed in, so checking it
again gives the same tree and the same scope.  Statements and expressions are kept as well, in
every scope. -/
theorem Program.check_keeps_source :
    (∀ p tp scope, Program.check p = .ok (tp, scope) →
      tp.erase = p ∧ tp.erase.check = .ok (tp, scope)) ∧
    (∀ scope s ts, Stmt.check scope s = .ok ts → ts.erase = s) ∧
    ∀ scope e te, Expr.check scope e = .ok te → te.erase = e := by
  refine ⟨fun p tp scope accepted => ?_, fun _ _ _ => Stmt.erase_of_check,
    fun _ _ _ => Expr.erase_of_check⟩
  have same := erase_of_check accepted
  exact ⟨same, same.symm ▸ accepted⟩

theorem Program.check_keeps_source_counter :
    ∃ tp scope, counter.check = .ok (tp, scope) ∧ tp.erase = counter ∧
      tp.erase.check = .ok (tp, scope) := by
  obtain ⟨⟨tp, scope⟩, accepted⟩ : ∃ r, counter.check = .ok r := ⟨_, rfl⟩
  obtain ⟨same, again⟩ := check_keeps_source.1 counter tp scope accepted
  exact ⟨tp, scope, accepted, same, again⟩

end Source
end ClassLang
