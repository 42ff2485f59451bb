/-
More declarations in a program.

Code names functions, variables and fields, and looks no further than their own declarations.  So a
program that goes on with more variables and more classes has the module it had before, with the
new globals after the old ones and the functions of the new classes after those of the old.
-/
import ClassLang.Proofs.Checker.Weakening
import ClassLang.Proofs.Lowering.Reuse

namespace ClassLang

namespace Scope.PartOf

variable {scope other : Scope}

theorem isGlobal_carries (part : scope.PartOf other) (name : String) :
    CarriesTo (scope.isGlobal name) (other.isGlobal name) := by
  intro global h
  unfold isGlobal at h ⊢
  rw [part.inMethod]
  split at h
  · next inside =>
    rw [if_pos inside]
    split at h
    · next binding found =>
      rw [part.vars name binding found]
      exact h
    · cases h
  · next outside =>
    rw [if_neg outside]
    exact h

theorem readVar_carries (part : scope.PartOf other) (name : String) :
    CarriesTo (scope.readVar name) (other.readVar name) :=
  (part.isGlobal_carries name).bind_same _

theorem writeVar_carries (part : scope.PartOf other) (name : String) :
    CarriesTo (scope.writeVar name) (other.writeVar name) :=
  (part.isGlobal_carries name).bind_same _

theorem fieldAddress_carries (part : scope.PartOf other) (obj : Ty) (field : String) :
    CarriesTo (scope.fieldAddress obj field) (other.fieldAddress obj field) := by
  cases obj with
  | object cls =>
    cases found : scope.classes.get? cls with
    | none =>
      unfold fieldAddress
      simp only [found]
      exact .of_error _ _
    | some info =>
      unfold fieldAddress
      simp only [found, part.classes cls info found]
      exact .refl _
  | _ => exact .refl _

end Scope.PartOf

namespace Typed

variable {scope other : Scope}

/-! ## Expressions -/

mutual

theorem Expr.lower_carries (part : scope.PartOf other) (e : Expr) :
    CarriesTo (e.lower scope) (e.lower other) := by
  unfold Expr.lower
  refine .guard ?_
  cases e with
  | literal ty value => exact .refl _
  | id ty name => exact (part.readVar_carries name).bind_same _
  | unary ty op arg => exact (Expr.lower_carries part arg).bind_same _
  | binary ty op lhs rhs =>
    exact (Expr.lower_carries part lhs).bind fun _ => (Expr.lower_carries part rhs).bind_same _
  | paren ty arg => exact Expr.lower_carries part arg
  | call ty name args => exact (Expr.lowerAll_carries part args).bind_same _
  | construct ty cls => exact .refl _
  | methodCall ty obj name args =>
    cases object : obj.ty with
    | object cls =>
      simp only [object]
      exact (Expr.lower_carries part obj).bind fun _ =>
        (Expr.lowerAll_carries part args).bind_same _
    | _ =>
      simp only [object]
      exact .refl _
  | field ty obj name =>
    exact (Expr.lower_carries part obj).bind fun _ =>
      (part.fieldAddress_carries obj.ty name).bind_same _
termination_by structural e

theorem Expr.lowerAll_carries (part : scope.PartOf other) (es : List Expr) :
    CarriesTo (Expr.lowerAll scope es) (Expr.lowerAll other es) := by
  cases es with
  | nil => exact .refl _
  | cons e rest =>
    exact (Expr.lower_carries part e).bind fun _ => (Expr.lowerAll_carries part rest).bind_same _
termination_by structural es

end

theorem LValue.lowerRead_carries (part : scope.PartOf other) (target : LValue) :
    CarriesTo (target.lowerRead scope) (target.lowerRead other) := by
  induction target with
  | var ty name => exact (part.readVar_carries name).bind_same _
  | field ty obj name ih =>
    exact ih.bind fun _ => (part.fieldAddress_carries obj.ty name).bind_same _

theorem LValue.lowerWrite_carries (part : scope.PartOf other) (value : Expr) (target : LValue) :
    CarriesTo (target.lowerWrite scope value) (target.lowerWrite other value) := by
  cases target with
  | var ty name =>
    exact (Expr.lower_carries part value).bind fun _ => (part.writeVar_carries name).bind_same _
  | field ty obj name =>
    exact (LValue.lowerRead_carries part obj).bind fun _ =>
      (part.fieldAddress_carries obj.ty name).bind fun _ =>
        (Expr.lower_carries part value).bind_same _

/-! ## Statements -/

theorem lowerReturn_carries (part : scope.PartOf other) (bare : BareReturn) (value : Option Expr) :
    CarriesTo (lowerReturn scope bare value) (lowerReturn other bare value) := by
  unfold lowerReturn
  rw [part.inMethod]
  cases scope.inMethod with
  | false => exact .of_error _ _
  | true =>
    simp only [Bool.not_true, Bool.false_eq_true, if_false]
    split
    · exact .refl _
    · next ty =>
      split
      · exact .refl _
      · exact (Expr.lower_carries part (.literal ty .none)).bind_same _
    · next e _ => exact (Expr.lower_carries part e).bind_same _

mutual

theorem Stmt.lower_carries (part : scope.PartOf other) (bare : BareReturn) (s : Stmt) :
    CarriesTo (s.lower scope bare) (s.lower other bare) := by
  cases s with
  | assign ty lhs value => exact LValue.lowerWrite_carries part value lhs
  | expr ty e => exact (Expr.lower_carries part e).bind_same _
  | ret ty value => exact lowerReturn_carries part bare value
  | branch ty arm => exact Arm.lower_carries part bare arm
  | pass ty => exact .refl _
termination_by structural s

theorem Arm.lower_carries (part : scope.PartOf other) (bare : BareReturn) (arm : Arm) :
    CarriesTo (arm.lower scope bare) (arm.lower other bare) := by
  cases arm with
  | mk ty condition body alternative =>
    refine (Stmt.lowerAll_carries part bare body).bind fun yes => ?_
    cases condition with
    | none => exact .refl _
    | some e =>
      exact (Arm.lowerAlternative_carries part bare alternative).bind fun _ =>
        (Expr.lower_carries part e).bind_same _
termination_by structural arm

theorem Arm.lowerAlternative_carries (part : scope.PartOf other) (bare : BareReturn)
    (alternative : Option Arm) :
    CarriesTo (Arm.lowerAlternative scope bare alternative)
      (Arm.lowerAlternative other bare alternative) := by
  cases alternative with
  | none => exact .refl _
  | some arm => exact (Arm.lower_carries part bare arm).bind_same _
termination_by structural alternative

theorem Stmt.lowerAll_carries (part : scope.PartOf other) (bare : BareReturn) (ss : List Stmt) :
    CarriesTo (Stmt.lowerAll scope bare ss) (Stmt.lowerAll other bare ss) := by
  cases ss with
  | nil => exact .refl _
  | cons s rest =>
    exact (Stmt.lower_carries part bare s).bind fun _ =>
      (Stmt.lowerAll_carries part bare rest).bind_same _
termination_by structural ss

end

/-! ## Methods and classes -/

theorem Method.lower_carries (part : scope.PartOf other) (readOnly : other.ReadOnly) (cls : String)
    (m : Method) : CarriesTo (m.lower scope cls).answer (m.lower other cls).answer := by
  intro f h
  rw [Method.answer_lower, bind_eq_ok] at h ⊢
  obtain ⟨inner, enters, h⟩ := h
  obtain ⟨inner', enters', inside⟩ := part.enterMethod readOnly enters
  exact ⟨inner', enters', (Stmt.lowerAll_carries inside m.bare m.statements).bind_same _ f h⟩

theorem Class.lowerConstruct_carries (part : scope.PartOf other) (c : Class) :
    CarriesTo (c.lowerConstruct scope) (c.lowerConstruct other) := by
  unfold lowerConstruct
  cases found : scope.classes.get? c.name with
  | none => exact .of_error _ _
  | some info =>
    rw [part.classes c.name info found]
    exact .refl _

theorem Class.lower_carries (part : scope.PartOf other) (c : Class) :
    CarriesTo (c.lower scope).answer (c.lower other).answer := by
  have inside := part.enterClass c.name
  have readOnly := other.enterClass_readOnly c.name
  rw [Class.answer_lower, Class.answer_lower]
  exact (Class.lowerConstruct_carries inside c).bind fun _ =>
    (CarriesTo.mapM fun m _ => Method.lower_carries inside readOnly c.name m).bind_same _

end Typed
end ClassLang
