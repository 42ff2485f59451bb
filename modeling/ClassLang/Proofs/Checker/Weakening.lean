/-
More names in scope.

A program that goes on with more declarations has a larger scope: what the smaller one knows means
the same there.  A tree that has been checked in a scope is checked in a larger one with the same
answer, since the checker looks up only what the tree mentions.  On the way into a method the new
variables are hidden like all others by the names that the method binds.
-/
import ClassLang.Proofs.Checker.Program
import ClassLang.Proofs.Checker.Repeats

namespace ClassLang

namespace Scope

/-- Everything in the one scope means the same in the other. -/
structure PartOf (scope other : Scope) : Prop where
  vars : scope.vars.Within other.vars
  classes : scope.classes.Within other.classes
  functions : other.functions = scope.functions
  returns : other.returns = scope.returns
  owner : other.owner = scope.owner

/-- Own names hide the same names in both. -/
theorem overlay_within {vars vars' : Table Binding} (within : vars.Within vars') {own : List Param}
    {name : String} {binding : Binding} (found : overlay vars own name = some binding) :
    overlay vars' own name = some binding := by
  unfold overlay at found ⊢
  split at found
  · exact found
  · exact within name binding found

namespace PartOf

variable {scope other : Scope}

theorem inMethod (part : scope.PartOf other) : other.inMethod = scope.inMethod := by
  rw [Scope.inMethod, part.owner, Scope.inMethod]

theorem enterClass (part : scope.PartOf other) (cls : String) :
    (scope.enterClass cls).PartOf (other.enterClass cls) where
  vars := fun name binding found => by
    rw [Scope.enterClass, Table.get?_map, Option.map_eq_some_iff] at found ⊢
    obtain ⟨outer, found, readOnly⟩ := found
    exact ⟨outer, part.vars name outer found, readOnly⟩
  classes := part.classes
  functions := part.functions
  returns := rfl
  owner := rfl

/-- A method can be entered whatever names there are more, as long as none can be assigned. -/
theorem enterMethod (part : scope.PartOf other) (readOnly : other.ReadOnly) {ret : Ty}
    {params locals : List Param} {inner : Scope}
    (enters : scope.enterMethod ret params locals = .ok inner) :
    ∃ inner', other.enterMethod ret params locals = .ok inner' ∧ inner.PartOf inner' := by
  have small := enterMethod_enters enters
  obtain ⟨inner', enters'⟩ := exists_enterMethod readOnly small.distinct
  have large := enterMethod_enters enters'
  refine ⟨inner', enters', fun name binding found => ?_, ?_, ?_, ?_, ?_⟩
  · rw [small.vars] at found
    rw [large.vars]
    exact overlay_within part.vars found
  · rw [small.classes, large.classes]
    exact part.classes
  · rw [small.functions, large.functions, part.functions]
  · rw [small.returns, large.returns]
  · rw [small.owner, large.owner, part.owner]

/-! ## Lookups -/

theorem var_carries (part : scope.PartOf other) (name : String) :
    CarriesTo (scope.var name) (other.var name) := by
  intro binding found
  rw [var_eq_ok] at found ⊢
  exact part.vars name binding found

theorem fieldTy_carries (part : scope.PartOf other) (obj : Ty) (field : String) :
    CarriesTo (scope.fieldTy obj field) (other.fieldTy obj field) := by
  intro ty h
  rw [fieldTy_eq_ok] at h ⊢
  obtain ⟨cls, info, object, found, declared⟩ := h
  exact ⟨cls, info, object, part.classes cls info found, declared⟩

theorem methodSignature_carries (part : scope.PartOf other) (obj : Ty) (method : String) :
    CarriesTo (scope.methodSignature obj method) (other.methodSignature obj method) := by
  rintro ⟨cls, signature⟩ h
  rw [methodSignature_eq_ok] at h ⊢
  obtain ⟨ordinary, object, info, found, declared⟩ := h
  exact ⟨ordinary, object, info, part.classes cls info found, declared⟩

theorem declares (part : scope.PartOf other) {ty : Ty} (h : scope.Declares ty) :
    other.Declares ty := by
  refine ⟨h.1, fun cls eq => ?_⟩
  obtain ⟨info, found⟩ := h.2 cls eq
  exact ⟨info, part.classes cls info found⟩

end PartOf
end Scope

theorem VarDef.Checked.mono {scope other : Scope} (part : scope.PartOf other) {v : VarDef}
    (h : v.Checked scope) : v.Checked other :=
  ⟨part.declares h.declared, h.takes⟩

namespace Source

variable {scope other : Scope}

/-! ## Expressions -/

theorem checkConstruct_carries (part : scope.PartOf other) (cls : String) (args : Nat) :
    CarriesTo (checkConstruct scope cls args) (checkConstruct other cls args) := by
  unfold checkConstruct
  cases known : scope.classes.contains cls with
  | false => exact .of_error _ _
  | true =>
    obtain ⟨info, found⟩ := Table.contains_eq_true.1 known
    rw [Table.contains_eq_true.2 ⟨info, part.classes cls info found⟩]
    exact .refl _

mutual

theorem Expr.check_carries (part : scope.PartOf other) (e : Expr) :
    CarriesTo (e.check scope) (e.check other) := by
  cases e with
  | literal value => exact .refl _
  | id name => exact (part.var_carries name).bind_same _
  | unary op arg => exact (Expr.check_carries part arg).bind_same _
  | binary op lhs rhs =>
    exact (Expr.check_carries part lhs).bind fun _ => (Expr.check_carries part rhs).bind_same _
  | paren arg => exact (Expr.check_carries part arg).bind_same _
  | call name args =>
    rw [Expr.check, Expr.check, part.functions]
    split
    · exact checkConstruct_carries part name args.length
    · next signature _ =>
      exact .bind (.refl _) fun _ =>
        (Expr.checkArgs_carries part name 0 signature.params args).bind_same _
  | methodCall obj name args =>
    exact (Expr.check_carries part obj).bind fun o =>
      (Expr.checkAll_carries part args).bind fun _ =>
        (part.methodSignature_carries o.ty name).bind_same _
  | field obj name =>
    exact (Expr.check_carries part obj).bind fun o => (part.fieldTy_carries o.ty name).bind_same _
termination_by structural e

theorem Expr.checkAll_carries (part : scope.PartOf other) (es : List Expr) :
    CarriesTo (Expr.checkAll scope es) (Expr.checkAll other es) := by
  cases es with
  | nil => exact .refl _
  | cons e rest =>
    exact (Expr.check_carries part e).bind fun _ => (Expr.checkAll_carries part rest).bind_same _
termination_by structural es

theorem Expr.checkArgs_carries (part : scope.PartOf other) (callee : String) (index : Nat)
    (params : List Ty) (es : List Expr) :
    CarriesTo (Expr.checkArgs scope callee index params es)
      (Expr.checkArgs other callee index params es) := by
  cases es with
  | nil => exact .refl _
  | cons e rest =>
    cases params with
    | nil => exact .refl _
    | cons param params =>
      exact (Expr.check_carries part e).bind fun t => .bind (.refl _) fun _ =>
        (Expr.checkArgs_carries part callee (index + 1) params rest).bind_same _
termination_by structural es

end

theorem LValue.checkReceiver_carries (part : scope.PartOf other) (target : LValue) :
    CarriesTo (target.checkReceiver scope) (target.checkReceiver other) := by
  induction target with
  | var name => exact (part.var_carries name).bind_same _
  | field obj name ih => exact ih.bind fun o => (part.fieldTy_carries o.ty name).bind_same _

theorem LValue.check_carries (part : scope.PartOf other) (target : LValue) :
    CarriesTo (target.check scope) (target.check other) := by
  cases target with
  | var name => exact (part.var_carries name).bind_same _
  | field obj name => exact LValue.checkReceiver_carries part (.field obj name)

/-! ## Statements -/

theorem checkCondition_carries (part : scope.PartOf other) (condition : Option Expr) :
    CarriesTo (checkCondition scope condition) (checkCondition other condition) := by
  cases condition with
  | none => exact .refl _
  | some e => exact (Expr.check_carries part e).bind_same _

theorem checkReturn_carries (part : scope.PartOf other) (value : Option Expr) :
    CarriesTo (checkReturn scope value) (checkReturn other value) := by
  intro ts h
  cases value with
  | none =>
    obtain ⟨inside, made⟩ := checkReturn_none.1 h
    exact checkReturn_none.2 ⟨part.inMethod.trans inside, made⟩
  | some e =>
    obtain ⟨inside, t, passed, takes, made⟩ := checkReturn_some.1 h
    exact checkReturn_some.2 ⟨part.inMethod.trans inside, t, Expr.check_carries part e t passed,
      part.returns ▸ takes, made⟩

mutual

theorem Stmt.check_carries (part : scope.PartOf other) (s : Stmt) :
    CarriesTo (s.check scope) (s.check other) := by
  cases s with
  | assign lhs value =>
    exact (LValue.check_carries part lhs).bind fun _ => (Expr.check_carries part value).bind_same _
  | expr e => exact (Expr.check_carries part e).bind_same _
  | ret value => exact checkReturn_carries part value
  | branch arm => exact (Arm.check_carries part arm).bind_same _
  | pass => exact .refl _
termination_by structural s

theorem Arm.check_carries (part : scope.PartOf other) (arm : Arm) :
    CarriesTo (arm.check scope) (arm.check other) := by
  cases arm with
  | mk condition body alternative =>
    exact (checkCondition_carries part condition).bind fun _ =>
      (Arm.checkAlternative_carries part alternative).bind fun _ =>
        (Stmt.checkAll_carries part body).bind_same _
termination_by structural arm

theorem Arm.checkAlternative_carries (part : scope.PartOf other) (alternative : Option Arm) :
    CarriesTo (Arm.checkAlternative scope alternative)
      (Arm.checkAlternative other alternative) := by
  cases alternative with
  | none => exact .refl _
  | some arm => exact (Arm.check_carries part arm).bind_same _
termination_by structural alternative

theorem Stmt.checkAll_carries (part : scope.PartOf other) (ss : List Stmt) :
    CarriesTo (Stmt.checkAll scope ss) (Stmt.checkAll other ss) := by
  cases ss with
  | nil => exact .refl _
  | cons s rest =>
    exact (Stmt.check_carries part s).bind fun _ => (Stmt.checkAll_carries part rest).bind_same _
termination_by structural ss

end

/-! ## Methods and classes -/

theorem Method.check_carries (part : scope.PartOf other) (readOnly : other.ReadOnly) (m : Method) :
    CarriesTo (m.check scope) (m.check other) := by
  intro tm h
  obtain ⟨inner, opens, quiet, statements, passed, returns, made⟩ := Method.check_eq_ok.1 h
  obtain ⟨inner', enters, inside⟩ := part.enterMethod readOnly opens.enters
  have opens' : other.Opens m.params m.ret m.definitions inner' :=
    { params := fun p mem => part.declares (opens.params p mem)
      ret := part.declares opens.ret
      definitions := fun v mem => (opens.definitions v mem).mono part
      enters }
  exact Method.check_eq_ok.2
    ⟨inner', opens', quiet, statements, Stmt.checkAll_carries inside m.statements _ passed, returns,
      made⟩

theorem Class.check_carries (part : scope.PartOf other) (c : Class) :
    CarriesTo (c.check scope) (c.check other) := by
  intro tc h
  obtain ⟨fields, methods, passed, made⟩ := Class.check_eq_ok.1 h
  refine Class.check_eq_ok.2 ⟨fun f mem => (fields f mem).mono part, methods, ?_, made⟩
  exact passed.imp fun m tm => Method.check_carries (part.enterClass c.name)
    (other.enterClass_readOnly c.name) m tm

end Source
end ClassLang
