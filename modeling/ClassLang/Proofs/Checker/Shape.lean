/-
What the checker makes of each form, in terms of what it makes of the parts.

These are the equations of the checker, for the trees that it passes: what has passed, and what it
takes to pass.
-/
import ClassLang.Proofs.Checker.Types
import ClassLang.Typing.Stmt

namespace ClassLang

/-- As many arguments as parameters, and each goes into its own. -/
def Passes (params args : List Ty) : Prop := List.Forall₂ Ty.Takes params args

/-! ## Names and members -/

namespace Scope

theorem var_eq_ok {scope : Scope} {name : String} {binding : Binding} :
    scope.var name = .ok binding ↔ scope.vars.get? name = some binding := by
  unfold var
  cases scope.vars.get? name <;> simp

theorem classInfo_eq_ok {scope : Scope} {cls : String} {info : ClassInfo} :
    scope.classInfo cls = .ok info ↔ scope.classes.get? cls = some info := by
  unfold classInfo
  cases scope.classes.get? cls <;> simp

theorem fieldTy_eq_ok {scope : Scope} {obj ty : Ty} {field : String} :
    scope.fieldTy obj field = .ok ty ↔
      ∃ cls info, obj = .object cls ∧ scope.classes.get? cls = some info ∧
        info.fields.get? field = some ty := by
  cases obj with
  | object cls =>
    simp only [fieldTy, bind_eq_ok, classInfo_eq_ok]
    constructor
    · rintro ⟨info, found, h⟩
      split at h
      · next hf => cases h; exact ⟨cls, info, rfl, found, hf⟩
      · cases h
    · rintro ⟨_, info, ⟨⟩, found, hf⟩
      refine ⟨info, found, ?_⟩
      rw [hf]
      rfl
  | _ =>
    constructor
    · rintro ⟨⟩
    · rintro ⟨_, _, ⟨⟩, _⟩

theorem methodSignature_eq_ok {scope : Scope} {obj : Ty} {method cls : String}
    {signature : Signature} :
    scope.methodSignature obj method = .ok (cls, signature) ↔
      method ≠ Source.constructorName ∧ obj = .object cls ∧
        ∃ info, scope.classes.get? cls = some info ∧
          info.methods.get? method = some signature := by
  unfold methodSignature
  by_cases hc : method = Source.constructorName
  · simp only [hc, if_true, bind_eq_ok, throw_eq_ok, false_and, exists_false, ne_eq,
      not_true_eq_false]
  simp only [hc, if_false, ne_eq, not_false_eq_true, true_and]
  cases obj with
  | object cls' =>
    simp only [bind_eq_ok, classInfo_eq_ok]
    constructor
    · rintro ⟨info, found, h⟩
      split at h
      · next hm => cases h; exact ⟨rfl, info, found, hm⟩
      · cases h
    · rintro ⟨⟨⟩, info, found, hm⟩
      refine ⟨info, found, ?_⟩
      rw [hm]
      rfl
  | _ =>
    constructor
    · rintro ⟨⟩
    · rintro ⟨⟨⟩, _⟩

end Scope

theorem Signature.checkCount_eq_ok {signature : Signature} {callee : String} {got : Nat}
    {u : Unit} : signature.checkCount callee got = .ok u ↔ got = signature.params.length := by
  unfold checkCount
  split <;> simp_all

theorem checkArgTys_eq_ok {callee : String} {params args : List Ty}
    (count : args.length = params.length) {index : Nat} {u : Unit} :
    checkArgTys callee index params args = .ok u ↔ Passes params args := by
  induction params generalizing args index with
  | nil =>
    cases List.length_eq_zero_iff.1 count
    exact ⟨fun _ => .nil, fun _ => rfl⟩
  | cons param params ih =>
    cases args with
    | nil => cases count
    | cons arg args =>
      simp only [checkArgTys, bind_eq_ok, Ty.require_eq_ok, ih (Nat.succ.inj count)]
      constructor
      · exact fun ⟨_, h, h'⟩ => .cons h h'
      · intro h
        cases h with
        | cons h h' => exact ⟨(), h, h'⟩

namespace Source

variable {scope : Scope}

/-! ## Expressions -/

section Expressions

variable {te : Typed.Expr} {tes : List Typed.Expr}

theorem Expr.check_id {name : String} :
    (Expr.id name).check scope = .ok te ↔
      ∃ binding, scope.vars.get? name = some binding ∧ .id binding.ty name = te := by
  simp only [Expr.check, bind_eq_ok, Scope.var_eq_ok, pure_eq_ok]

theorem Expr.check_unary {op : UnOp} {arg : Expr} :
    (Expr.unary op arg).check scope = .ok te ↔
      ∃ a, arg.check scope = .ok a ∧ a.ty = op.operandTy ∧ .unary op.operandTy op a = te := by
  simp only [Expr.check, bind_eq_ok]
  refine exists_congr fun a => and_congr_right fun _ => ?_
  split
  · next operand => rw [pure_eq_ok]; exact (and_iff_right operand).symm
  · next other => exact iff_of_false (throw_eq_ok.1 ·) fun h => other h.1

theorem Expr.check_binary {op : BinOp} {lhs rhs : Expr} :
    (Expr.binary op lhs rhs).check scope = .ok te ↔
      ∃ l, lhs.check scope = .ok l ∧ ∃ r, rhs.check scope = .ok r ∧
        ∃ ty, op.Types l.ty r.ty ty ∧ .binary ty op l r = te := by
  simp only [Expr.check, bind_eq_ok, pure_eq_ok, BinOp.check_eq_ok]

theorem Expr.check_paren {arg : Expr} :
    (Expr.paren arg).check scope = .ok te ↔
      ∃ a, arg.check scope = .ok a ∧ .paren a.ty a = te := by
  simp only [Expr.check, bind_eq_ok, pure_eq_ok]

theorem Expr.check_field {obj : Expr} {name : String} :
    (Expr.field obj name).check scope = .ok te ↔
      ∃ o, obj.check scope = .ok o ∧ ∃ ty, (∃ cls info, o.ty = .object cls ∧
        scope.classes.get? cls = some info ∧ info.fields.get? name = some ty) ∧
          .field ty o name = te := by
  simp only [Expr.check, bind_eq_ok, pure_eq_ok, Scope.fieldTy_eq_ok]

theorem Expr.checkAll_cons {e : Expr} {rest : List Expr} :
    Expr.checkAll scope (e :: rest) = .ok tes ↔
      ∃ t, e.check scope = .ok t ∧ ∃ ts, Expr.checkAll scope rest = .ok ts ∧ t :: ts = tes := by
  simp only [Expr.checkAll, bind_eq_ok, pure_eq_ok]

theorem Expr.length_of_checkAll {es : List Expr} (h : Expr.checkAll scope es = .ok tes) :
    tes.length = es.length := by
  induction es generalizing tes with
  | nil => cases h; rfl
  | cons e rest ih =>
    obtain ⟨t, -, ts, hrest, rfl⟩ := Expr.checkAll_cons.1 h
    rw [List.length_cons, List.length_cons, ih hrest]

/-- That the argument of a built-in is held against its parameter before the next one is looked at
shows in no answer. -/
theorem Expr.checkArgs_eq_ok {callee : String} {index : Nat} {params : List Ty} {es : List Expr}
    (count : es.length = params.length) :
    Expr.checkArgs scope callee index params es = .ok tes ↔
      Expr.checkAll scope es = .ok tes ∧ Passes params (tes.map Typed.Expr.ty) := by
  induction es generalizing params index tes with
  | nil =>
    cases List.length_eq_zero_iff.1 count.symm
    rw [Expr.checkArgs, Expr.checkAll, Except.ok.injEq]
    exact ⟨fun h => h ▸ ⟨rfl, .nil⟩, fun h => h.1⟩
  | cons e rest ih =>
    cases params with
    | nil => cases count
    | cons param params =>
      simp only [Expr.checkArgs, bind_eq_ok, pure_eq_ok, Ty.require_eq_ok,
        ih (Nat.succ.inj count), Expr.checkAll_cons]
      constructor
      · rintro ⟨t, he, _, takes, ts, ⟨hrest, passed⟩, rfl⟩
        exact ⟨⟨t, he, ts, hrest, rfl⟩, .cons takes passed⟩
      · rintro ⟨⟨t, he, ts, hrest, rfl⟩, passed⟩
        cases passed with
        | cons takes passed => exact ⟨t, he, (), takes, ts, ⟨hrest, passed⟩, rfl⟩

theorem Expr.check_call {name : String} {args : List Expr} {signature : Signature}
    (found : scope.functions.get? name = some signature) :
    (Expr.call name args).check scope = .ok te ↔
      ∃ ts, Expr.checkAll scope args = .ok ts ∧
        Passes signature.params (ts.map Typed.Expr.ty) ∧ .call signature.ret name ts = te := by
  simp only [Expr.check, found, bind_eq_ok, pure_eq_ok, Signature.checkCount_eq_ok]
  constructor
  · rintro ⟨_, count, ts, hargs, rfl⟩
    obtain ⟨hall, passed⟩ := (Expr.checkArgs_eq_ok count).1 hargs
    exact ⟨ts, hall, passed, rfl⟩
  · rintro ⟨ts, hall, passed, rfl⟩
    have count : args.length = signature.params.length := by
      rw [passed.length_eq, List.length_map, Expr.length_of_checkAll hall]
    exact ⟨(), count, ts, (Expr.checkArgs_eq_ok count).2 ⟨hall, passed⟩, rfl⟩

theorem Expr.check_construct {name : String} {args : List Expr}
    (notFunction : scope.functions.get? name = none) :
    (Expr.call name args).check scope = .ok te ↔
      args = [] ∧ (∃ info, scope.classes.get? name = some info) ∧
        .construct (.object name) name = te := by
  simp only [Expr.check, notFunction, checkConstruct]
  cases known : scope.classes.get? name with
  | none => simp [Table.contains, known]
  | some info => cases args <;> simp [Table.contains, known]

theorem Expr.check_methodCall {obj : Expr} {name : String} {args : List Expr} :
    (Expr.methodCall obj name args).check scope = .ok te ↔
      ∃ o, obj.check scope = .ok o ∧ ∃ ts, Expr.checkAll scope args = .ok ts ∧
        ∃ cls info signature, o.ty = .object cls ∧ scope.classes.get? cls = some info ∧
          name ≠ constructorName ∧ info.methods.get? name = some signature ∧
            Passes signature.params (ts.map Typed.Expr.ty) ∧
              .methodCall signature.ret o name ts = te := by
  simp only [Expr.check, bind_eq_ok, pure_eq_ok, Prod.exists, Signature.checkCount_eq_ok,
    Scope.methodSignature_eq_ok]
  constructor
  · rintro ⟨o, hobj, ts, hargs, cls, signature, ⟨ordinary, object, info, found, method⟩, _, count,
      _, passed, rfl⟩
    rw [checkArgTys_eq_ok (by rw [List.length_map, count])] at passed
    exact ⟨o, hobj, ts, hargs, cls, info, signature, object, found, ordinary, method, passed, rfl⟩
  · rintro ⟨o, hobj, ts, hargs, cls, info, signature, object, found, ordinary, method, passed, rfl⟩
    have count : ts.length = signature.params.length := by
      rw [passed.length_eq, List.length_map]
    refine ⟨o, hobj, ts, hargs, cls, signature, ⟨ordinary, object, info, found, method⟩, (), count,
      (), ?_, rfl⟩
    rwa [checkArgTys_eq_ok (by rw [List.length_map, count])]

end Expressions

/-! ## Targets -/

section Targets

variable {tt : Typed.LValue}

theorem LValue.checkReceiver_var {name : String} :
    (LValue.var name).checkReceiver scope = .ok tt ↔
      ∃ binding, scope.vars.get? name = some binding ∧ .var binding.ty name = tt := by
  simp only [LValue.checkReceiver, bind_eq_ok, Scope.var_eq_ok, pure_eq_ok]

theorem LValue.checkReceiver_field {obj : LValue} {name : String} :
    (LValue.field obj name).checkReceiver scope = .ok tt ↔
      ∃ o, obj.checkReceiver scope = .ok o ∧ ∃ ty, (∃ cls info, o.ty = .object cls ∧
        scope.classes.get? cls = some info ∧ info.fields.get? name = some ty) ∧
          .field ty o name = tt := by
  simp only [LValue.checkReceiver, bind_eq_ok, pure_eq_ok, Scope.fieldTy_eq_ok]

theorem LValue.check_var {name : String} :
    (LValue.var name).check scope = .ok tt ↔
      ∃ binding, scope.vars.get? name = some binding ∧ binding.assignable = true ∧
        .var binding.ty name = tt := by
  simp only [LValue.check, bind_eq_ok, Scope.var_eq_ok]
  refine exists_congr fun binding => and_congr_right fun _ => ?_
  split
  · next own => rw [pure_eq_ok]; exact (and_iff_right own).symm
  · next outer => exact iff_of_false (throw_eq_ok.1 ·) fun h => outer h.1

end Targets

/-! ## Statements -/

section Statements

variable {ts : Typed.Stmt} {tss : List Typed.Stmt} {ta : Typed.Arm}

theorem checkCondition_some {e : Expr} {test : Option Typed.Expr} :
    checkCondition scope (some e) = .ok test ↔
      ∃ t, e.check scope = .ok t ∧ t.ty = .bool ∧ some t = test := by
  simp only [checkCondition, bind_eq_ok]
  refine exists_congr fun t => and_congr_right fun _ => ?_
  split
  · next isBool => rw [pure_eq_ok]; exact (and_iff_right isBool).symm
  · next other => exact iff_of_false (throw_eq_ok.1 ·) fun h => other h.1

theorem checkReturn_none :
    checkReturn scope none = .ok ts ↔ scope.inMethod = true ∧ .ret .none none = ts := by
  cases inside : scope.inMethod with
  | false =>
    simp only [checkReturn, inside, Bool.not_false, if_true, bind_eq_ok, throw_eq_ok, false_and,
      exists_false, Bool.false_eq_true]
  | true =>
    simp only [checkReturn, inside, Bool.not_true, Bool.false_eq_true, if_false, pure_eq_ok,
      true_and]

theorem checkReturn_some {e : Expr} :
    checkReturn scope (some e) = .ok ts ↔
      scope.inMethod = true ∧ ∃ t, e.check scope = .ok t ∧ scope.returns.Takes t.ty ∧
        .ret t.ty (some t) = ts := by
  cases inside : scope.inMethod with
  | false =>
    simp only [checkReturn, inside, Bool.not_false, if_true, bind_eq_ok, throw_eq_ok, false_and,
      exists_false, Bool.false_eq_true]
  | true =>
    simp only [checkReturn, inside, Bool.not_true, Bool.false_eq_true, if_false, bind_eq_ok,
      pure_eq_ok, Ty.require_eq_ok, true_and, exists_const]

theorem Stmt.check_assign {lhs : LValue} {value : Expr} :
    (Stmt.assign lhs value).check scope = .ok ts ↔
      ∃ l, lhs.check scope = .ok l ∧ ∃ v, value.check scope = .ok v ∧ l.ty.Takes v.ty ∧
        .assign .none l v = ts := by
  simp only [Stmt.check, bind_eq_ok, pure_eq_ok, Ty.require_eq_ok, exists_const]

theorem Stmt.check_expr {e : Expr} :
    (Stmt.expr e).check scope = .ok ts ↔ ∃ t, e.check scope = .ok t ∧ .expr .none t = ts := by
  simp only [Stmt.check, bind_eq_ok, pure_eq_ok]

theorem Stmt.check_branch {arm : Arm} :
    (Stmt.branch arm).check scope = .ok ts ↔
      ∃ a, arm.check scope = .ok a ∧ .branch a.ty a = ts := by
  simp only [Stmt.check, bind_eq_ok, pure_eq_ok]

theorem Arm.check_mk {condition : Option Expr} {body : List Stmt} {alternative : Option Arm} :
    (Arm.mk condition body alternative).check scope = .ok ta ↔
      ∃ test, checkCondition scope condition = .ok test ∧
        ∃ other, Arm.checkAlternative scope alternative = .ok other ∧
          ∃ block, Stmt.checkAll scope body = .ok block ∧
            ∃ ty, Typed.armTy? test.isSome (other.map Typed.Arm.ty) (Typed.bodyTy block) =
                some ty ∧ .mk ty test block other = ta := by
  simp only [Arm.check, bind_eq_ok]
  refine exists_congr fun test => and_congr_right fun _ => exists_congr fun other =>
    and_congr_right fun _ => exists_congr fun block => and_congr_right fun _ => ?_
  split
  · next merged => simp only [pure_eq_ok, merged, Option.some.injEq, exists_eq_left']
  · next malformed => simp only [throw_eq_ok, malformed, reduceCtorEq, false_and, exists_false]

theorem Arm.checkAlternative_some {arm : Arm} {other : Option Typed.Arm} :
    Arm.checkAlternative scope (some arm) = .ok other ↔
      ∃ a, arm.check scope = .ok a ∧ some a = other := by
  simp only [Arm.checkAlternative, bind_eq_ok, pure_eq_ok]

theorem Stmt.checkAll_cons {s : Stmt} {rest : List Stmt} :
    Stmt.checkAll scope (s :: rest) = .ok tss ↔
      ∃ t, s.check scope = .ok t ∧ ∃ ts, Stmt.checkAll scope rest = .ok ts ∧ t :: ts = tss := by
  simp only [Stmt.checkAll, bind_eq_ok, pure_eq_ok]

end Statements

end Source
end ClassLang
