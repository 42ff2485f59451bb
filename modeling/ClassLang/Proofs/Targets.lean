/-
Targets as expressions.

An assignment to a field reaches its object through a target that is only read.  Checker and
generator go through such targets on their own, beside expressions, and come to the same: the types
and the errors of the expression that is written like the target, and its code.
-/
import ClassLang.Proofs.Lowering.Offsets

namespace ClassLang

namespace Source

/-- The expression that is written like the target. -/
def LValue.toExpr : LValue → Expr
  | .var name => .id name
  | .field obj name => .field obj.toExpr name

end Source

namespace Typed

def LValue.toExpr : LValue → Expr
  | .var ty name => .id ty name
  | .field ty obj name => .field ty obj.toExpr name

@[simp] theorem LValue.ty_toExpr (target : LValue) : target.toExpr.ty = target.ty := by
  cases target <;> rfl

/-- No node of the target has the type `any`. -/
def LValue.Concrete : LValue → Prop
  | .var ty _ => ty ≠ .any
  | .field ty obj _ => ty ≠ .any ∧ obj.Concrete

end Typed

/-! ## The checker -/

/-- The types on the nodes of the two trees are the same, and so is the error if there is one. -/
theorem Source.LValue.check_toExpr (scope : Scope) (target : LValue) :
    target.toExpr.check scope = (target.checkReceiver scope).map Typed.LValue.toExpr := by
  induction target with
  | var name =>
    rw [toExpr, Expr.check, checkReceiver]
    exact bind_eq_map_bind_of_same fun _ _ => rfl
  | field obj name ih =>
    rw [toExpr, Expr.check, checkReceiver]
    refine bind_eq_map_bind ih fun typed _ => ?_
    rw [Typed.LValue.ty_toExpr]
    exact bind_eq_map_bind_of_same fun _ _ => rfl

/-! ## The generator -/

namespace Typed

variable {scope : Scope}

/-- The expression has a check of its own for the type `any`, which the target has not. -/
theorem LValue.lower_toExpr {target : LValue} (concrete : target.Concrete) :
    target.toExpr.lower scope = target.lowerRead scope := by
  induction target with
  | var ty name =>
    have typed : (Expr.id ty name).ty ≠ .any := concrete
    rw [toExpr, Expr.lower, if_neg typed, lowerRead]
  | field ty obj name ih =>
    have typed : (Expr.field ty obj.toExpr name).ty ≠ .any := concrete.1
    rw [toExpr, Expr.lower, if_neg typed, lowerRead, ih concrete.2, ty_toExpr]

/-- The code that leaves the address of a field. -/
def LValue.lowerAddress (scope : Scope) (obj : LValue) (name : String) : Except Error Code := do
  let code ← obj.lowerRead scope
  let address ← scope.fieldAddress obj.ty name
  return code ++ address

theorem LValue.lowerRead_eq_address (ty : Ty) (obj : LValue) (name : String) :
    (LValue.field ty obj name).lowerRead scope =
      (obj.lowerAddress scope name).map (· ++ [Instr.load]) := by
  rw [lowerRead, lowerAddress]
  refine bind_eq_map_bind_of_same fun code _ => ?_
  exact bind_eq_map_bind_of_same fun _ _ => rfl

theorem LValue.lowerWrite_eq_address (ty : Ty) (obj : LValue) (name : String) (value : Expr) :
    (LValue.field ty obj name).lowerWrite scope value = (do
      let address ← obj.lowerAddress scope name
      let value ← value.lower scope
      return address ++ value ++ [.store]) := by
  rw [lowerWrite, lowerAddress]
  cases obj.lowerRead scope with
  | error e => rfl
  | ok code => cases scope.fieldAddress obj.ty name <;> rfl

end Typed

/-- A target that is only read has the types and the code of the expression that is written like it,
or the same error.  So an assignment to a field begins with the code with which the field is read, up
to the load. -/
theorem targets_read_as_expressions (scope : Scope) :
    (∀ target : Source.LValue,
      target.toExpr.check scope = (target.checkReceiver scope).map Typed.LValue.toExpr) ∧
    ∀ target : Typed.LValue, target.Concrete →
      target.toExpr.lower scope = target.lowerRead scope ∧
      ∀ ty obj name, target = .field ty obj name → ∃ address : Except Error Code,
        target.toExpr.lower scope = address.map (· ++ [.load]) ∧
        ∀ value : Typed.Expr, target.lowerWrite scope value = (do
          let address ← address
          let value ← value.lower scope
          return address ++ value ++ [.store]) := by
  refine ⟨Source.LValue.check_toExpr scope, fun target concrete => ?_⟩
  have same : target.toExpr.lower scope = target.lowerRead scope :=
    Typed.LValue.lower_toExpr concrete
  refine ⟨same, ?_⟩
  rintro ty obj name rfl
  refine ⟨obj.lowerAddress scope name, ?_, Typed.LValue.lowerWrite_eq_address ty obj name⟩
  rw [same, Typed.LValue.lowerRead_eq_address]

/-- The value in the second node of the list. -/
def Typed.LValue.second : LValue :=
  .field .int (.field (.object "Node") (.var (.object "Node") "list") "next") "value"

theorem targets_read_as_expressions_linked :
    ∃ tp scope laid, Source.Program.linked.check = .ok (tp, scope) ∧
      scope.withLayouts tp = .ok laid ∧ Typed.LValue.second.Concrete ∧ ∃ address : Code,
        Typed.LValue.second.toExpr.lower laid = .ok (address ++ [.load]) ∧
        Typed.LValue.second.lowerWrite laid (.literal .int (.int 5)) =
          .ok (address ++ [.const 5, .store]) := by
  obtain ⟨⟨tp, scope⟩, accepted⟩ : ∃ r, Source.Program.linked.check = .ok r := ⟨_, rfl⟩
  obtain ⟨laid, pass⟩ : ∃ laid, scope.withLayouts tp = .ok laid := by
    cases accepted
    exact ⟨_, rfl⟩
  have concrete : Typed.LValue.second.Concrete := ⟨Ty.noConfusion, Ty.noConfusion, Ty.noConfusion⟩
  obtain ⟨-, targets⟩ := targets_read_as_expressions laid
  obtain ⟨-, parts⟩ := targets _ concrete
  obtain ⟨address, read, write⟩ := parts _ _ _ rfl
  refine ⟨tp, scope, laid, accepted, pass, concrete, ?_⟩
  cases address with
  | error e =>
    cases accepted
    cases pass
    cases read
  | ok code =>
    have stored := write (.literal .int (.int 5))
    refine ⟨code, read, stored.trans ?_⟩
    show Except.ok (code ++ [Instr.const 5] ++ [.store]) = _
    rw [List.append_assoc]
    rfl

end ClassLang
