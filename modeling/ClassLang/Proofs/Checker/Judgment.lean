/-
What the checker promises of the trees that it hands on.

The rules speak of the annotated tree alone: each node carries the type that its parts and the scope
give it.  `check_checked` says that the checker builds no other trees.
-/
import ClassLang.Proofs.Checker.Shape

namespace ClassLang

namespace Typed

inductive Expr.Checked (scope : Scope) : Expr → Prop
  | literal (value : Literal) : Checked scope (.literal value.ty value)
  | id {name : String} {binding : Binding} (found : scope.vars.get? name = some binding) :
    Checked scope (.id binding.ty name)
  | unary {op : UnOp} {arg : Expr} (checked : Checked scope arg) (operand : arg.ty = op.operandTy) :
    Checked scope (.unary op.operandTy op arg)
  | binary {op : BinOp} {lhs rhs : Expr} {ty : Ty} (left : Checked scope lhs)
    (right : Checked scope rhs) (operands : op.Types lhs.ty rhs.ty ty) :
    Checked scope (.binary ty op lhs rhs)
  | paren {arg : Expr} (checked : Checked scope arg) : Checked scope (.paren arg.ty arg)
  | call {name : String} {signature : Signature} {args : List Expr}
    (found : scope.functions.get? name = some signature) (checked : ∀ e ∈ args, Checked scope e)
    (passed : Passes signature.params (args.map Expr.ty)) :
    Checked scope (.call signature.ret name args)
  | construct {cls : String} {info : ClassInfo} (found : scope.classes.get? cls = some info)
    (notFunction : scope.functions.get? cls = none) :
    Checked scope (.construct (.object cls) cls)
  | methodCall {obj : Expr} {cls name : String} {info : ClassInfo} {signature : Signature}
    {args : List Expr} (receiver : Checked scope obj) (object : obj.ty = .object cls)
    (found : scope.classes.get? cls = some info) (ordinary : name ≠ Source.constructorName)
    (method : info.methods.get? name = some signature) (checked : ∀ e ∈ args, Checked scope e)
    (passed : Passes signature.params (args.map Expr.ty)) :
    Checked scope (.methodCall signature.ret obj name args)
  | field {obj : Expr} {cls name : String} {info : ClassInfo} {ty : Ty}
    (receiver : Checked scope obj) (object : obj.ty = .object cls)
    (found : scope.classes.get? cls = some info) (field : info.fields.get? name = some ty) :
    Checked scope (.field ty obj name)

/-- A target that can be read. -/
inductive LValue.Readable (scope : Scope) : LValue → Prop
  | var {name : String} {binding : Binding} (found : scope.vars.get? name = some binding) :
    Readable scope (.var binding.ty name)
  | field {obj : LValue} {cls name : String} {info : ClassInfo} {ty : Ty}
    (receiver : Readable scope obj) (object : obj.ty = .object cls)
    (found : scope.classes.get? cls = some info) (field : info.fields.get? name = some ty) :
    Readable scope (.field ty obj name)

/-- A target that can be written. -/
inductive LValue.Writable (scope : Scope) : LValue → Prop
  | var {name : String} {binding : Binding} (found : scope.vars.get? name = some binding)
    (assignable : binding.assignable = true) : Writable scope (.var binding.ty name)
  | field {obj : LValue} {cls name : String} {info : ClassInfo} {ty : Ty}
    (receiver : obj.Readable scope) (object : obj.ty = .object cls)
    (found : scope.classes.get? cls = some info) (field : info.fields.get? name = some ty) :
    Writable scope (.field ty obj name)

mutual

inductive Stmt.Checked (scope : Scope) : Stmt → Prop
  | assign {lhs : LValue} {value : Expr} (target : lhs.Writable scope)
    (checked : value.Checked scope) (takes : lhs.ty.Takes value.ty) :
    Stmt.Checked scope (.assign .none lhs value)
  | expr {e : Expr} (checked : e.Checked scope) : Stmt.Checked scope (.expr .none e)
  | bareRet (inside : scope.inMethod = true) : Stmt.Checked scope (.ret .none none)
  | ret {e : Expr} (inside : scope.inMethod = true) (checked : e.Checked scope)
    (takes : scope.returns.Takes e.ty) : Stmt.Checked scope (.ret e.ty (some e))
  | branch {arm : Arm} (checked : Arm.Checked scope arm) :
    Stmt.Checked scope (.branch arm.ty arm)
  | pass : Stmt.Checked scope (.pass .none)

inductive Arm.Checked (scope : Scope) : Arm → Prop
  | mk {ty : Ty} {condition : Option Expr} {body : List Stmt} {alternative : Option Arm}
    (test : ∀ e ∈ condition, e.Checked scope ∧ e.ty = .bool)
    (other : ∀ arm ∈ alternative, Arm.Checked scope arm)
    (block : ∀ s ∈ body, Stmt.Checked scope s)
    (merged : armTy? condition.isSome (alternative.map Arm.ty) (bodyTy body) = some ty) :
    Arm.Checked scope (.mk ty condition body alternative)

end

end Typed

/-! ## The type of a body is that of one of its statements -/

namespace Typed

theorem bodyTy_cases (stmts : List Stmt) :
    bodyTy stmts = .none ∨ ∃ s ∈ stmts, s.ty = bodyTy stmts := by
  -- the type so far is what the list started with, or that of a statement passed over
  suffices ∀ start, stmts.foldl (fun ty stmt => if stmt.ty = .none then ty else stmt.ty) start =
        start ∨ ∃ s ∈ stmts, s.ty =
          stmts.foldl (fun ty stmt => if stmt.ty = .none then ty else stmt.ty) start from
    this .none
  induction stmts with
  | nil => exact fun _ => Or.inl rfl
  | cons s rest ih =>
    intro start
    rw [List.foldl_cons]
    rcases ih (if s.ty = .none then start else s.ty) with same | ⟨t, mem, eq⟩
    · rw [same]
      split
      · exact Or.inl rfl
      · exact Or.inr ⟨s, List.mem_cons_self, rfl⟩
    · exact Or.inr ⟨t, List.mem_cons_of_mem _ mem, eq⟩

theorem armTy?_cases {hasCondition : Bool} {alternative : Option Ty} {body ty : Ty}
    (merged : armTy? hasCondition alternative body = some ty) : ty = .none ∨ ty = body := by
  unfold armTy? at merged
  split at merged
  · exact Or.inr (Option.some.inj merged).symm
  · exact Or.inl (Option.some.inj merged).symm
  · split at merged
    · exact Or.inl (Option.some.inj merged).symm
    · exact Or.inr (Option.some.inj merged).symm
  · cases merged

end Typed

/-! ## The checker keeps to the rules -/

namespace Source

mutual

theorem Expr.check_checked {scope : Scope} {e : Expr} {te : Typed.Expr}
    (h : e.check scope = .ok te) : te.Checked scope := by
  cases e with
  | literal value => exact Expr.check_literal.1 h ▸ .literal value
  | id name =>
    obtain ⟨binding, found, rfl⟩ := Expr.check_id.1 h
    exact .id found
  | unary op arg =>
    obtain ⟨arg', harg, operand, rfl⟩ := Expr.check_unary.1 h
    exact .unary (Expr.check_checked harg) operand
  | binary op lhs rhs =>
    obtain ⟨lhs', hl, rhs', hr, ty, operands, rfl⟩ := Expr.check_binary.1 h
    exact .binary (Expr.check_checked hl) (Expr.check_checked hr) operands
  | paren arg =>
    obtain ⟨arg', harg, rfl⟩ := Expr.check_paren.1 h
    exact .paren (Expr.check_checked harg)
  | call name args =>
    cases found : scope.functions.get? name with
    | none =>
      obtain ⟨-, ⟨info, known⟩, rfl⟩ := (Expr.check_construct found).1 h
      exact .construct known found
    | some signature =>
      obtain ⟨args', hargs, passed, rfl⟩ := (Expr.check_call found).1 h
      exact .call found (Expr.checkAll_checked hargs) passed
  | methodCall obj name args =>
    obtain ⟨obj', hobj, args', hargs, cls, info, signature, object, found, ordinary, method, passed,
      rfl⟩ := Expr.check_methodCall.1 h
    exact .methodCall (Expr.check_checked hobj) object found ordinary method
      (Expr.checkAll_checked hargs) passed
  | field obj name =>
    obtain ⟨obj', hobj, ty, ⟨cls, info, object, found, field⟩, rfl⟩ := Expr.check_field.1 h
    exact .field (Expr.check_checked hobj) object found field

theorem Expr.checkAll_checked {scope : Scope} {es : List Expr} {tes : List Typed.Expr}
    (h : Expr.checkAll scope es = .ok tes) : ∀ te ∈ tes, te.Checked scope := by
  cases es with
  | nil =>
    cases h
    exact List.forall_mem_nil _
  | cons e rest =>
    obtain ⟨te, he, tes', hrest, rfl⟩ := Expr.checkAll_cons.1 h
    exact List.forall_mem_cons.2 ⟨Expr.check_checked he, Expr.checkAll_checked hrest⟩

end

theorem LValue.checkReceiver_readable {scope : Scope} {target : LValue} {tt : Typed.LValue}
    (h : target.checkReceiver scope = .ok tt) : tt.Readable scope := by
  induction target generalizing tt with
  | var name =>
    obtain ⟨binding, found, rfl⟩ := LValue.checkReceiver_var.1 h
    exact .var found
  | field obj name ih =>
    obtain ⟨obj', hobj, ty, ⟨cls, info, object, found, field⟩, rfl⟩ :=
      LValue.checkReceiver_field.1 h
    exact .field (ih hobj) object found field

theorem LValue.check_writable {scope : Scope} {target : LValue} {tt : Typed.LValue}
    (h : target.check scope = .ok tt) : tt.Writable scope := by
  cases target with
  | var name =>
    obtain ⟨binding, found, assignable, rfl⟩ := LValue.check_var.1 h
    exact .var found assignable
  | field obj name =>
    obtain ⟨obj', hobj, ty, ⟨cls, info, object, found, field⟩, rfl⟩ :=
      LValue.checkReceiver_field.1 h
    exact .field (LValue.checkReceiver_readable hobj) object found field

theorem checkCondition_checked {scope : Scope} {condition : Option Expr}
    {checked : Option Typed.Expr} (h : checkCondition scope condition = .ok checked) :
    ∀ te ∈ checked, te.Checked scope ∧ te.ty = .bool := by
  cases condition with
  | none =>
    cases h
    exact fun _ mem => nomatch mem
  | some e =>
    obtain ⟨te, he, hty, rfl⟩ := checkCondition_some.1 h
    rintro _ ⟨⟩
    exact ⟨Expr.check_checked he, hty⟩

theorem checkReturn_checked {scope : Scope} {value : Option Expr} {ts : Typed.Stmt}
    (h : checkReturn scope value = .ok ts) : ts.Checked scope := by
  cases value with
  | none =>
    obtain ⟨inside, rfl⟩ := checkReturn_none.1 h
    exact .bareRet inside
  | some e =>
    obtain ⟨inside, te, he, takes, rfl⟩ := checkReturn_some.1 h
    exact .ret inside (Expr.check_checked he) takes

mutual

theorem Stmt.check_checked {scope : Scope} {s : Stmt} {ts : Typed.Stmt}
    (h : s.check scope = .ok ts) : ts.Checked scope := by
  cases s with
  | assign lhs value =>
    obtain ⟨lhs', hl, value', hv, takes, rfl⟩ := Stmt.check_assign.1 h
    exact .assign (LValue.check_writable hl) (Expr.check_checked hv) takes
  | expr e =>
    obtain ⟨e', he, rfl⟩ := Stmt.check_expr.1 h
    exact .expr (Expr.check_checked he)
  | ret value => exact checkReturn_checked h
  | branch arm =>
    obtain ⟨arm', harm, rfl⟩ := Stmt.check_branch.1 h
    exact .branch (Arm.check_checked harm)
  | pass =>
    cases h
    exact .pass

theorem Arm.check_checked {scope : Scope} {arm : Arm} {ta : Typed.Arm}
    (h : arm.check scope = .ok ta) : ta.Checked scope := by
  cases arm with
  | mk condition body alternative =>
    obtain ⟨test, hc, other, ha, block, hb, ty, merged, rfl⟩ := Arm.check_mk.1 h
    exact .mk (checkCondition_checked hc) (Arm.checkAlternative_checked ha)
      (Stmt.checkAll_checked hb) merged

theorem Arm.checkAlternative_checked {scope : Scope} {alternative : Option Arm}
    {checked : Option Typed.Arm} (h : Arm.checkAlternative scope alternative = .ok checked) :
    ∀ ta ∈ checked, ta.Checked scope := by
  cases alternative with
  | none =>
    cases h
    exact fun _ mem => nomatch mem
  | some arm =>
    obtain ⟨ta, harm, rfl⟩ := Arm.checkAlternative_some.1 h
    rintro _ ⟨⟩
    exact Arm.check_checked harm

theorem Stmt.checkAll_checked {scope : Scope} {ss : List Stmt} {tss : List Typed.Stmt}
    (h : Stmt.checkAll scope ss = .ok tss) : ∀ ts ∈ tss, ts.Checked scope := by
  cases ss with
  | nil =>
    cases h
    exact List.forall_mem_nil _
  | cons s rest =>
    obtain ⟨ts, hs, tss', hrest, rfl⟩ := Stmt.checkAll_cons.1 h
    exact List.forall_mem_cons.2 ⟨Stmt.check_checked hs, Stmt.checkAll_checked hrest⟩

end

end Source

end ClassLang
