/-
The types of expressions, by the rules of the language.

The judgment speaks of the tree that is handed in.  It knows nothing of annotations, of the order in
which the parts of an expression are looked at, or of what is said of one that has no type.
-/
import ClassLang.Proofs.Checker.Erasure

namespace ClassLang
namespace Source

mutual

inductive Expr.HasType (scope : Scope) : Expr → Ty → Prop
  | none : Expr.HasType scope (.literal .none) .none
  | bool (b : Bool) : Expr.HasType scope (.literal (.bool b)) .bool
  | int (n : Int32) : Expr.HasType scope (.literal (.int n)) .int
  | id {name : String} {binding : Binding} (found : scope.vars.get? name = some binding) :
    Expr.HasType scope (.id name) binding.ty
  | not {arg : Expr} (operand : Expr.HasType scope arg .bool) :
    Expr.HasType scope (.unary .not arg) .bool
  | sign {op : UnOp} {arg : Expr} (isSign : op ∈ [UnOp.plus, .neg])
    (operand : Expr.HasType scope arg .int) : Expr.HasType scope (.unary op arg) .int
  | arithmetic {op : BinOp} {lhs rhs : Expr}
    (isArithmetic : op ∈ [BinOp.add, .sub, .mul, .floorDiv, .mod])
    (left : Expr.HasType scope lhs .int) (right : Expr.HasType scope rhs .int) :
    Expr.HasType scope (.binary op lhs rhs) .int
  | comparison {op : BinOp} {lhs rhs : Expr}
    (isComparison : op ∈ [BinOp.eq, .ne, .lt, .le, .gt, .ge])
    (left : Expr.HasType scope lhs .int) (right : Expr.HasType scope rhs .int) :
    Expr.HasType scope (.binary op lhs rhs) .bool
  | equality {op : BinOp} {lhs rhs : Expr} (isEquality : op ∈ [BinOp.eq, .ne])
    (left : Expr.HasType scope lhs .bool) (right : Expr.HasType scope rhs .bool) :
    Expr.HasType scope (.binary op lhs rhs) .bool
  | identity {lhs rhs : Expr} {l r : Ty} (left : Expr.HasType scope lhs l)
    (right : Expr.HasType scope rhs r) (leftRef : l = .none ∨ ∃ cls, l = .object cls)
    (rightRef : r = .none ∨ ∃ cls, r = .object cls) :
    Expr.HasType scope (.binary .is lhs rhs) .bool
  | paren {arg : Expr} {ty : Ty} (inner : Expr.HasType scope arg ty) :
    Expr.HasType scope (.paren arg) ty
  | call {name : String} {signature : Signature} {args : List Expr}
    (found : scope.functions.get? name = some signature)
    (accepted : Expr.Accepted scope signature.params args) :
    Expr.HasType scope (.call name args) signature.ret
  /-- A name that is no function makes an object. -/
  | construct {cls : String} {info : ClassInfo} (notFunction : scope.functions.get? cls = none)
    (found : scope.classes.get? cls = some info) :
    Expr.HasType scope (.call cls []) (.object cls)
  | methodCall {obj : Expr} {cls name : String} {info : ClassInfo} {signature : Signature}
    {args : List Expr} (receiver : Expr.HasType scope obj (.object cls))
    (found : scope.classes.get? cls = some info) (ordinary : name ≠ constructorName)
    (method : info.methods.get? name = some signature)
    (accepted : Expr.Accepted scope signature.params args) :
    Expr.HasType scope (.methodCall obj name args) signature.ret
  | field {obj : Expr} {cls name : String} {info : ClassInfo} {ty : Ty}
    (receiver : Expr.HasType scope obj (.object cls))
    (found : scope.classes.get? cls = some info) (field : info.fields.get? name = some ty) :
    Expr.HasType scope (.field obj name) ty

/-- There are as many arguments as parameters, and each has a type that goes into its own. -/
inductive Expr.Accepted (scope : Scope) : List Ty → List Expr → Prop
  | nil : Expr.Accepted scope [] []
  | cons {param ty : Ty} {arg : Expr} {params : List Ty} {args : List Expr}
    (typed : Expr.HasType scope arg ty) (takes : param.Takes ty)
    (rest : Expr.Accepted scope params args) : Expr.Accepted scope (param :: params) (arg :: args)

end

/-! ## Checked trees have their types -/

section Soundness

variable {scope : Scope}

theorem Expr.HasType.literal (value : Literal) :
    (Expr.literal value).HasType scope value.ty := by
  cases value with
  | none => exact .none
  | bool b => exact .bool b
  | int n => exact .int n

theorem Expr.HasType.unary {op : UnOp} {arg : Expr} (operand : arg.HasType scope op.operandTy) :
    (Expr.unary op arg).HasType scope op.operandTy := by
  cases op with
  | not => exact .not operand
  | neg | plus => exact .sign (by decide) operand

/-- The table of operators, rule by rule. -/
theorem Expr.HasType.binary {op : BinOp} {lhs rhs : Expr} {l r ty : Ty}
    (left : lhs.HasType scope l) (right : rhs.HasType scope r) (operands : op.Types l r ty) :
    (Expr.binary op lhs rhs).HasType scope ty := by
  cases operands with
  | arithmetic isArithmetic =>
    refine .arithmetic ?_ left right
    cases op with
    | add | sub | mul | floorDiv | mod => decide
    | _ => cases isArithmetic
  | compare notArithmetic notIs =>
    refine .comparison ?_ left right
    cases op with
    | eq | ne | lt | le | gt | ge => decide
    | is => exact absurd rfl notIs
    | _ => cases notArithmetic
  | eq | ne => exact .equality (by decide) left right
  | identity leftRef rightRef =>
    exact .identity left right (Ty.isReference_iff.1 leftRef) (Ty.isReference_iff.1 rightRef)

theorem Expr.accepted_of_passes {params : List Ty} {tes : List Typed.Expr}
    (typed : ∀ te ∈ tes, te.erase.HasType scope te.ty)
    (passed : Passes params (tes.map Typed.Expr.ty)) :
    Expr.Accepted scope params (Typed.Expr.eraseAll tes) := by
  induction tes generalizing params with
  | nil =>
    cases passed
    exact .nil
  | cons te tes ih =>
    obtain ⟨first, others⟩ := List.forall_mem_cons.1 typed
    cases passed with
    | cons takes passed => exact .cons first takes (ih others passed)

theorem Expr.hasType_of_checked {te : Typed.Expr} (h : te.Checked scope) :
    te.erase.HasType scope te.ty := by
  induction h with
  | literal value => exact .literal value
  | id found => exact .id found
  | unary _ operand ih => exact .unary (operand ▸ ih)
  | binary _ _ operands ihl ihr => exact .binary ihl ihr operands
  | paren _ ih => exact .paren ih
  | call found _ passed ih => exact .call found (Expr.accepted_of_passes ih passed)
  | construct found notFunction => exact .construct notFunction found
  | methodCall _ object found ordinary method _ passed ihr ih =>
    exact .methodCall (object ▸ ihr) found ordinary method (Expr.accepted_of_passes ih passed)
  | field _ object found field ih => exact .field (object ▸ ih) found field

end Soundness

/-! ## Trees with a type pass -/

section Completeness

variable {scope : Scope}

mutual

theorem Expr.HasType.exists_checked {e : Expr} {ty : Ty} (h : e.HasType scope ty) :
    ∃ te : Typed.Expr, te.Checked scope ∧ te.erase = e ∧ te.ty = ty := by
  cases h with
  | none | bool | int => exact ⟨_, .literal _, rfl, rfl⟩
  | id found => exact ⟨_, .id found, rfl, rfl⟩
  | not operand =>
    obtain ⟨a, checked, rfl, isBool⟩ := Expr.HasType.exists_checked operand
    have operandTy : a.ty = UnOp.not.operandTy := isBool
    exact ⟨_, .unary checked operandTy, rfl, rfl⟩
  | @sign op arg isSign operand =>
    obtain ⟨a, checked, rfl, isInt⟩ := Expr.HasType.exists_checked operand
    have operandTy : op.operandTy = .int := by
      cases op with
      | not => exact absurd isSign (by decide)
      | neg | plus => rfl
    exact ⟨_, .unary checked (isInt.trans operandTy.symm), rfl, operandTy⟩
  | @arithmetic op lhs rhs isArithmetic left right =>
    obtain ⟨l, leftChecked, rfl, leftInt⟩ := Expr.HasType.exists_checked left
    obtain ⟨r, rightChecked, rfl, rightInt⟩ := Expr.HasType.exists_checked right
    have arithmetic : op.isArithmetic = true := by
      cases op with
      | add | sub | mul | floorDiv | mod => rfl
      | _ => exact absurd isArithmetic (by decide)
    have operands : op.Types l.ty r.ty .int := by
      rw [leftInt, rightInt]
      exact .arithmetic arithmetic
    exact ⟨_, .binary leftChecked rightChecked operands, rfl, rfl⟩
  | @comparison op lhs rhs isComparison left right =>
    obtain ⟨l, leftChecked, rfl, leftInt⟩ := Expr.HasType.exists_checked left
    obtain ⟨r, rightChecked, rfl, rightInt⟩ := Expr.HasType.exists_checked right
    have compares : op.isArithmetic = false ∧ op ≠ .is := by
      cases op with
      | eq | ne | lt | le | gt | ge => exact ⟨rfl, BinOp.noConfusion⟩
      | _ => exact absurd isComparison (by decide)
    have operands : op.Types l.ty r.ty .bool := by
      rw [leftInt, rightInt]
      exact .compare compares.1 compares.2
    exact ⟨_, .binary leftChecked rightChecked operands, rfl, rfl⟩
  | @equality op lhs rhs isEquality left right =>
    obtain ⟨l, leftChecked, rfl, leftBool⟩ := Expr.HasType.exists_checked left
    obtain ⟨r, rightChecked, rfl, rightBool⟩ := Expr.HasType.exists_checked right
    have operands : op.Types l.ty r.ty .bool := by
      rw [leftBool, rightBool]
      cases op with
      | eq => exact .eq
      | ne => exact .ne
      | _ => exact absurd isEquality (by decide)
    exact ⟨_, .binary leftChecked rightChecked operands, rfl, rfl⟩
  | identity left right leftRef rightRef =>
    obtain ⟨l, leftChecked, rfl, rfl⟩ := Expr.HasType.exists_checked left
    obtain ⟨r, rightChecked, rfl, rfl⟩ := Expr.HasType.exists_checked right
    exact ⟨_, .binary leftChecked rightChecked
      (.identity (Ty.isReference_iff.2 leftRef) (Ty.isReference_iff.2 rightRef)), rfl, rfl⟩
  | paren inner =>
    obtain ⟨a, checked, rfl, rfl⟩ := Expr.HasType.exists_checked inner
    exact ⟨_, .paren checked, rfl, rfl⟩
  | call found accepted =>
    obtain ⟨tes, checked, rfl, passed⟩ := Expr.Accepted.exists_checked accepted
    exact ⟨_, .call found checked passed, rfl, rfl⟩
  | construct notFunction found => exact ⟨_, .construct found notFunction, rfl, rfl⟩
  | methodCall receiver found ordinary method accepted =>
    obtain ⟨o, checkedObj, rfl, object⟩ := Expr.HasType.exists_checked receiver
    obtain ⟨tes, checked, rfl, passed⟩ := Expr.Accepted.exists_checked accepted
    exact ⟨_, .methodCall checkedObj object found ordinary method checked passed, rfl, rfl⟩
  | field receiver found field =>
    obtain ⟨o, checkedObj, rfl, object⟩ := Expr.HasType.exists_checked receiver
    exact ⟨_, .field checkedObj object found field, rfl, rfl⟩

theorem Expr.Accepted.exists_checked {params : List Ty} {es : List Expr}
    (h : Expr.Accepted scope params es) :
    ∃ tes : List Typed.Expr, (∀ te ∈ tes, te.Checked scope) ∧ Typed.Expr.eraseAll tes = es ∧
      Passes params (tes.map Typed.Expr.ty) := by
  cases h with
  | nil => exact ⟨[], List.forall_mem_nil _, rfl, .nil⟩
  | cons typed takes rest =>
    obtain ⟨te, checked, rfl, rfl⟩ := Expr.HasType.exists_checked typed
    obtain ⟨tes, checkedRest, rfl, passed⟩ := Expr.Accepted.exists_checked rest
    exact ⟨te :: tes, List.forall_mem_cons.2 ⟨checked, checkedRest⟩, rfl, .cons takes passed⟩

end

end Completeness

/-- An expression has at most one type. -/
theorem Expr.HasType.unique {scope : Scope} {e : Expr} {ty ty' : Ty} (h : e.HasType scope ty)
    (h' : e.HasType scope ty') : ty = ty' := by
  obtain ⟨te, checked, same, rfl⟩ := h.exists_checked
  obtain ⟨te', checked', same', rfl⟩ := h'.exists_checked
  have passed : e.check scope = .ok te := Expr.check_eq_ok_iff.2 ⟨checked, same⟩
  have passed' : e.check scope = .ok te' := Expr.check_eq_ok_iff.2 ⟨checked', same'⟩
  rw [Except.ok.inj (passed.symm.trans passed')]

/-- The checker finds a type for an expression exactly if it has that type, in every scope. -/
theorem Expr.check_iff_hasType (scope : Scope) (e : Expr) (ty : Ty) :
    (∃ te, e.check scope = .ok te ∧ te.ty = ty) ↔ e.HasType scope ty := by
  constructor
  · rintro ⟨te, passed, rfl⟩
    obtain ⟨checked, rfl⟩ := Expr.check_eq_ok_iff.1 passed
    exact Expr.hasType_of_checked checked
  · intro typed
    obtain ⟨te, checked, same, hasTy⟩ := typed.exists_checked
    exact ⟨te, Expr.check_eq_ok_iff.2 ⟨checked, same⟩, hasTy⟩

end Source
end ClassLang
