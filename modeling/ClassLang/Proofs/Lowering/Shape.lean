/-
The code of each form, in terms of the code of its parts.

These are the equations of the generator, read backwards: what it has succeeded with, if it has
succeeded.
-/
import ClassLang.Lowering.Stmt
import ClassLang.Proofs.Except
import Mathlib.Tactic.Common

namespace ClassLang

namespace Scope

/-- A name stands for a local of the function if the method itself binds it. -/
theorem isGlobal_of_found {scope : Scope} {name : String} {binding : Binding}
    (found : scope.vars.get? name = some binding) :
    scope.isGlobal name = .ok !(scope.inMethod && binding.assignable) := by
  unfold isGlobal
  cases scope.inMethod
  · rfl
  · simp only [if_true, found, Bool.true_and]

theorem readVar_of_found {scope : Scope} {name : String} {binding : Binding}
    (found : scope.vars.get? name = some binding) :
    scope.readVar name =
      .ok (if scope.inMethod && binding.assignable then .localGet name else .globalGet name) := by
  rw [readVar, isGlobal_of_found found]
  cases scope.inMethod && binding.assignable <;> rfl

theorem writeVar_of_found {scope : Scope} {name : String} {binding : Binding}
    (found : scope.vars.get? name = some binding) :
    scope.writeVar name =
      .ok (if scope.inMethod && binding.assignable then .localSet name else .globalSet name) := by
  rw [writeVar, isGlobal_of_found found]
  cases scope.inMethod && binding.assignable <;> rfl

theorem fieldAddress_of_found {scope : Scope} {cls field : String} {info : ClassInfo}
    {layout : Layout} {offset : UInt32} (found : scope.classes.get? cls = some info)
    (laid : info.layout = some layout) (lies : layout.offset? field = some offset) :
    scope.fieldAddress (.object cls) field =
      .ok (guardAbsent ++ [Instr.const offset.toInt32, .add]) := by
  simp only [fieldAddress, found, Option.bind_some, laid, lies]
  rfl

end Scope

namespace Typed

section Expressions

variable {scope : Scope} {ty : Ty} {code : Code}

attribute [local simp] Expr.lower Expr.lowerAll LValue.lowerRead LValue.lowerWrite

theorem Expr.lower_literal (concrete : ty ≠ .any) {value : Literal} :
    (Expr.literal ty value).lower scope = .ok code ↔ [.const value.word] = code := by
  simp [Expr.ty, concrete]

theorem Expr.lower_id (concrete : ty ≠ .any) {name : String} :
    (Expr.id ty name).lower scope = .ok code ↔
      ∃ read, scope.readVar name = .ok read ∧ [read] = code := by
  simp only [Expr.lower, Expr.ty, concrete, if_false, bind_eq_ok, pure_eq_ok]

theorem Expr.lower_unary (concrete : ty ≠ .any) {op : UnOp} {arg : Expr} :
    (Expr.unary ty op arg).lower scope = .ok code ↔
      ∃ c, arg.lower scope = .ok c ∧ c ++ op.code = code := by
  simp only [Expr.lower, Expr.ty, concrete, if_false, bind_eq_ok, pure_eq_ok]

theorem Expr.lower_binary (concrete : ty ≠ .any) {op : BinOp} {lhs rhs : Expr} :
    (Expr.binary ty op lhs rhs).lower scope = .ok code ↔
      ∃ l, lhs.lower scope = .ok l ∧ ∃ r, rhs.lower scope = .ok r ∧
        l ++ r ++ [op.instr] = code := by
  simp only [Expr.lower, Expr.ty, concrete, if_false, bind_eq_ok, pure_eq_ok]

theorem Expr.lower_paren (concrete : ty ≠ .any) {arg : Expr} :
    (Expr.paren ty arg).lower scope = .ok code ↔ arg.lower scope = .ok code := by
  simp [Expr.ty, concrete]

theorem Expr.lower_call (concrete : ty ≠ .any) {name : String} {args : List Expr} :
    (Expr.call ty name args).lower scope = .ok code ↔
      ∃ c, Expr.lowerAll scope args = .ok c ∧
        ∃ call, callBuiltin name (args.map Expr.ty) = .ok call ∧ c ++ [call] = code := by
  have concrete : (Expr.call ty name args).ty ≠ .any := concrete
  simp only [Expr.lower, concrete, if_false, bind_eq_ok, pure_eq_ok]

theorem Expr.lower_construct (concrete : ty ≠ .any) {cls : String} :
    (Expr.construct ty cls).lower scope = .ok code ↔
      [.call (constructorSymbol cls) 0 true] = code := by
  simp [Expr.ty, concrete]

theorem Expr.lower_methodCall (concrete : ty ≠ .any) {obj : Expr} {cls name : String}
    {args : List Expr} (object : obj.ty = .object cls) :
    (Expr.methodCall ty obj name args).lower scope = .ok code ↔
      ∃ o, obj.lower scope = .ok o ∧ ∃ c, Expr.lowerAll scope args = .ok c ∧
        o ++ guardAbsent ++ c ++ [Instr.call (methodSymbol cls name) (args.length + 1) true] =
          code := by
  have concrete : (Expr.methodCall ty obj name args).ty ≠ .any := concrete
  simp only [Expr.lower, concrete, if_false, object, bind_eq_ok, pure_eq_ok]

theorem Expr.lower_field (concrete : ty ≠ .any) {obj : Expr} {name : String} :
    (Expr.field ty obj name).lower scope = .ok code ↔
      ∃ o, obj.lower scope = .ok o ∧
        ∃ address, scope.fieldAddress obj.ty name = .ok address ∧
          o ++ address ++ [Instr.load] = code := by
  simp only [Expr.lower, Expr.ty, concrete, if_false, bind_eq_ok, pure_eq_ok]

theorem LValue.lowerRead_var {name : String} :
    (LValue.var ty name).lowerRead scope = .ok code ↔
      ∃ read, scope.readVar name = .ok read ∧ [read] = code := by
  simp only [LValue.lowerRead, bind_eq_ok, pure_eq_ok]

theorem LValue.lowerRead_field {obj : LValue} {name : String} :
    (LValue.field ty obj name).lowerRead scope = .ok code ↔
      ∃ o, obj.lowerRead scope = .ok o ∧
        ∃ address, scope.fieldAddress obj.ty name = .ok address ∧
          o ++ address ++ [Instr.load] = code := by
  simp only [LValue.lowerRead, bind_eq_ok, pure_eq_ok]

theorem LValue.lowerWrite_var {value : Expr} {name : String} :
    (LValue.var ty name).lowerWrite scope value = .ok code ↔
      ∃ v, value.lower scope = .ok v ∧ ∃ write, scope.writeVar name = .ok write ∧
        v ++ [write] = code := by
  simp only [LValue.lowerWrite, bind_eq_ok, pure_eq_ok]

theorem LValue.lowerWrite_field {value : Expr} {obj : LValue} {name : String} :
    (LValue.field ty obj name).lowerWrite scope value = .ok code ↔
      ∃ o, obj.lowerRead scope = .ok o ∧
        ∃ address, scope.fieldAddress obj.ty name = .ok address ∧
          ∃ v, value.lower scope = .ok v ∧ o ++ address ++ v ++ [Instr.store] = code := by
  simp only [LValue.lowerWrite, bind_eq_ok, pure_eq_ok]

end Expressions

section Statements

variable {scope : Scope} {bare : BareReturn} {ty : Ty} {code : Code}

attribute [local simp] Stmt.lower Arm.lower Arm.lowerAlternative Stmt.lowerAll

theorem Stmt.lower_expr {e : Expr} :
    (Stmt.expr ty e).lower scope bare = .ok code ↔
      ∃ c, e.lower scope = .ok c ∧ c ++ [Instr.localSet scratch] = code := by
  simp only [Stmt.lower, bind_eq_ok, pure_eq_ok]

theorem lowerReturn_none (inside : scope.inMethod = true) :
    lowerReturn scope bare none = .ok code ↔ bare.code = code := by
  simp only [lowerReturn, inside, Bool.not_true, Bool.false_eq_true, if_false, pure_eq_ok]

/-- In a constructor the literal `None` is not even lowered. -/
theorem lowerReturn_some (inside : scope.inMethod = true) {e : Expr} :
    lowerReturn scope bare (some e) = .ok code ↔
      (bare = .self ∧ ∃ ty, e = .literal ty .none) ∧ bare.code = code ∨
        ¬(bare = .self ∧ ∃ ty, e = .literal ty .none) ∧
          ∃ c, e.lower scope = .ok c ∧ c ++ [Instr.ret] = code := by
  unfold lowerReturn
  simp only [inside, Bool.not_true, Bool.false_eq_true, if_false]
  split
  · contradiction
  · next lit =>
    cases lit
    by_cases self : bare = .self
    · simp [self, pure_eq_ok]
    · simp only [self, false_and, not_false_eq_true, true_and, false_or, if_false, bind_eq_ok,
        pure_eq_ok]
  · next notNone eq =>
    cases eq
    have other : ¬∃ ty, e = .literal ty .none := fun ⟨ty, eq⟩ => notNone ty eq
    simp only [other, and_false, false_and, not_false_eq_true, true_and, false_or, bind_eq_ok,
      pure_eq_ok]

theorem Arm.lower_else {body : List Stmt} :
    (Arm.mk ty none body none).lower scope bare = .ok code ↔
      Stmt.lowerAll scope bare body = .ok code := by
  simp

theorem Arm.lower_if {e : Expr} {body : List Stmt} {alternative : Option Arm} :
    (Arm.mk ty (some e) body alternative).lower scope bare = .ok code ↔
      ∃ yes, Stmt.lowerAll scope bare body = .ok yes ∧
        ∃ no, Arm.lowerAlternative scope bare alternative = .ok no ∧
          ∃ c, e.lower scope = .ok c ∧ c ++ [Instr.branch yes no] = code := by
  simp only [Arm.lower, bind_eq_ok, pure_eq_ok]

theorem Arm.lowerAlternative_some {arm : Arm} {no : Option Code} :
    Arm.lowerAlternative scope bare (some arm) = .ok no ↔
      ∃ c, arm.lower scope bare = .ok c ∧ some c = no := by
  simp only [Arm.lowerAlternative, bind_eq_ok, pure_eq_ok]

theorem Stmt.lowerAll_cons {s : Stmt} {rest : List Stmt} :
    Stmt.lowerAll scope bare (s :: rest) = .ok code ↔
      ∃ c, s.lower scope bare = .ok c ∧ ∃ cs, Stmt.lowerAll scope bare rest = .ok cs ∧
        c ++ cs = code := by
  simp only [Stmt.lowerAll, bind_eq_ok, pure_eq_ok]

theorem Stmt.lowerAll_append {front back : List Stmt} :
    Stmt.lowerAll scope bare (front ++ back) = .ok code ↔
      ∃ c, Stmt.lowerAll scope bare front = .ok c ∧
        ∃ cs, Stmt.lowerAll scope bare back = .ok cs ∧ c ++ cs = code := by
  induction front generalizing code with
  | nil =>
    simp
  | cons s front ih =>
    simp only [List.cons_append, Stmt.lowerAll_cons, ih]
    constructor
    · rintro ⟨c, hc, _, ⟨cs, hcs, ds, hds, rfl⟩, rfl⟩
      exact ⟨c ++ cs, ⟨c, hc, cs, hcs, rfl⟩, ds, hds, List.append_assoc ..⟩
    · rintro ⟨_, ⟨c, hc, cs, hcs, rfl⟩, ds, hds, rfl⟩
      exact ⟨c, hc, cs ++ ds, ⟨cs, hcs, ds, hds, rfl⟩, (List.append_assoc ..).symm⟩

end Statements

/-! ## Outside of methods

Statements have no returns there that could be lowered, so what a bare return would hand back shows
in no code and in no error. -/

mutual

theorem Stmt.lower_outside {scope : Scope} (outside : scope.inMethod = false)
    (bare bare' : BareReturn) (s : Stmt) : s.lower scope bare = s.lower scope bare' := by
  cases s with
  | assign ty lhs value => rfl
  | expr ty e => rfl
  | ret ty value =>
    simp only [Stmt.lower, lowerReturn, outside, Bool.not_false, if_true, throw_bind]
  | branch ty arm => exact Arm.lower_outside outside bare bare' arm
  | pass ty => rfl
termination_by structural s

theorem Arm.lower_outside {scope : Scope} (outside : scope.inMethod = false)
    (bare bare' : BareReturn) (arm : Arm) : arm.lower scope bare = arm.lower scope bare' := by
  cases arm with
  | mk ty condition body alternative =>
    rw [Arm.lower, Arm.lower, Stmt.lowerAll_outside outside bare bare' body,
      Arm.lowerAlternative_outside outside bare bare' alternative]
termination_by structural arm

theorem Arm.lowerAlternative_outside {scope : Scope} (outside : scope.inMethod = false)
    (bare bare' : BareReturn) (alternative : Option Arm) :
    Arm.lowerAlternative scope bare alternative = Arm.lowerAlternative scope bare' alternative := by
  cases alternative with
  | none => rfl
  | some arm =>
    rw [Arm.lowerAlternative, Arm.lowerAlternative, Arm.lower_outside outside bare bare' arm]
termination_by structural alternative

theorem Stmt.lowerAll_outside {scope : Scope} (outside : scope.inMethod = false)
    (bare bare' : BareReturn) (ss : List Stmt) :
    Stmt.lowerAll scope bare ss = Stmt.lowerAll scope bare' ss := by
  cases ss with
  | nil => rfl
  | cons s rest =>
    rw [Stmt.lowerAll, Stmt.lowerAll, Stmt.lower_outside outside bare bare' s,
      Stmt.lowerAll_outside outside bare bare' rest]
termination_by structural ss

end

end Typed
end ClassLang
