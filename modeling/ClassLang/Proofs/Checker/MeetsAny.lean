/-
Trees in which the first thing that is wrong is that a value has type `any`.

They are exactly those that the checker blames itself for.
-/
import ClassLang.Proofs.Checker.Internal

namespace ClassLang
namespace Source

/-- Everything in the expression that is looked at before passes, and then a value of type `any` is
an operand or an argument. -/
inductive Expr.MeetsAny (scope : Scope) : Expr → Prop
  | unary {op : UnOp} {arg : Expr} (inner : MeetsAny scope arg) : MeetsAny scope (.unary op arg)
  | left {op : BinOp} {lhs rhs : Expr} (inner : MeetsAny scope lhs) :
    MeetsAny scope (.binary op lhs rhs)
  | right {op : BinOp} {lhs rhs : Expr} {l : Typed.Expr} (left : lhs.check scope = .ok l)
    (inner : MeetsAny scope rhs) : MeetsAny scope (.binary op lhs rhs)
  | operand {op : BinOp} {lhs rhs : Expr} {l r : Typed.Expr} (left : lhs.check scope = .ok l)
    (right : rhs.check scope = .ok r) (any : l.ty = .any ∨ r.ty = .any) :
    MeetsAny scope (.binary op lhs rhs)
  | paren {arg : Expr} (inner : MeetsAny scope arg) : MeetsAny scope (.paren arg)
  | builtin {name : String} {signature : Signature} {before : List Expr} {arg : Expr}
    {after : List Expr} (found : scope.functions.get? name = some signature)
    (count : (before ++ arg :: after).length = signature.params.length)
    (passed : ∀ pair ∈ signature.params.zip before,
      ∃ e, pair.2.check scope = .ok e ∧ pair.1.Takes e.ty)
    (inner : MeetsAny scope arg) : MeetsAny scope (.call name (before ++ arg :: after))
  | builtinArg {name : String} {signature : Signature} {before : List Expr} {arg : Expr}
    {after : List Expr} {a : Typed.Expr} (found : scope.functions.get? name = some signature)
    (count : (before ++ arg :: after).length = signature.params.length)
    (passed : ∀ pair ∈ signature.params.zip before,
      ∃ e, pair.2.check scope = .ok e ∧ pair.1.Takes e.ty)
    (checked : arg.check scope = .ok a) (any : a.ty = .any) :
    MeetsAny scope (.call name (before ++ arg :: after))
  | receiver {obj : Expr} {name : String} {args : List Expr} (inner : MeetsAny scope obj) :
    MeetsAny scope (.methodCall obj name args)
  | method {obj : Expr} {name : String} {before : List Expr} {arg : Expr} {after : List Expr}
    {o : Typed.Expr} (receiver : obj.check scope = .ok o)
    (passed : ∀ e ∈ before, ∃ te, Expr.check scope e = .ok te) (inner : MeetsAny scope arg) :
    MeetsAny scope (.methodCall obj name (before ++ arg :: after))
  | methodArg {obj : Expr} {cls name : String} {signature : Signature} {args : List Expr}
    {o : Typed.Expr} {as : List Typed.Expr} {before after : List Ty}
    (receiver : obj.check scope = .ok o) (passed : Expr.checkAll scope args = .ok as)
    (known : scope.methodSignature o.ty name = .ok (cls, signature))
    (count : as.length = signature.params.length)
    (any : as.map Typed.Expr.ty = before ++ .any :: after) (fits : Fits signature.params before) :
    MeetsAny scope (.methodCall obj name args)
  | field {obj : Expr} {name : String} (inner : MeetsAny scope obj) :
    MeetsAny scope (.field obj name)

theorem Expr.checkAll_eq_mapM {scope : Scope} {es : List Expr} :
    Expr.checkAll scope es = es.mapM (·.check scope) := by
  induction es with
  | nil => rfl
  | cons e es ih => rw [Expr.checkAll, List.mapM_cons, ih]

theorem Expr.checkArgs_breaks {scope : Scope} {callee : String} {index : Nat} {params : List Ty}
    {es : List Expr} (count : es.length = params.length) :
    Breaks (Expr.checkArgs scope callee index params es) ↔
      ∃ (before : List Expr) (arg : Expr) (after : List Expr), es = before ++ arg :: after ∧
        (∀ pair ∈ params.zip before, ∃ e, pair.2.check scope = .ok e ∧ pair.1.Takes e.ty) ∧
        (Breaks (arg.check scope) ∨ ∃ a, arg.check scope = .ok a ∧ a.ty = .any) := by
  induction es generalizing params index with
  | nil =>
    refine iff_of_false not_breaks_ok ?_
    rintro ⟨before, arg, after, eq, _⟩
    cases before <;> cases eq
  | cons e es ih =>
    cases params with
    | nil => cases count
    | cons param params =>
      have step : Breaks (Expr.checkArgs scope callee index (param :: params) (e :: es)) ↔
          Breaks (e.check scope) ∨ ∃ te, e.check scope = .ok te ∧ (te.ty = .any ∨
            ∃ _ : Unit, param.Takes te.ty ∧
              Breaks (Expr.checkArgs scope callee (index + 1) params es)) := by
        rw [Expr.checkArgs, breaks_bind]
        refine or_congr_right (exists_congr fun te => and_congr_right fun _ => ?_)
        rw [breaks_bind, Ty.require_breaks rfl]
        simp only [Ty.require_eq_ok, not_breaks_bind_pure]
      rw [step, ih (Nat.succ.inj count)]
      constructor
      · rintro (broken | ⟨te, he, any | ⟨_, takes, before, arg, after, rfl, passed, found⟩⟩)
        · exact ⟨[], e, es, rfl, List.forall_mem_nil _, Or.inl broken⟩
        · exact ⟨[], e, es, rfl, List.forall_mem_nil _, Or.inr ⟨te, he, any⟩⟩
        · exact ⟨e :: before, arg, after, rfl,
            List.forall_mem_cons.2 ⟨⟨te, he, takes⟩, passed⟩, found⟩
      · rintro ⟨before, arg, after, eq, passed, found⟩
        cases before with
        | nil =>
          cases eq
          refine found.imp_right ?_
          rintro ⟨a, ha, any⟩
          exact ⟨a, ha, Or.inl any⟩
        | cons first before =>
          cases eq
          obtain ⟨⟨te, he, takes⟩, passed⟩ := List.forall_mem_cons.1 passed
          exact Or.inr ⟨te, he, Or.inr ⟨(), takes, before, arg, after, rfl, passed, found⟩⟩

theorem Expr.MeetsAny.breaks {scope : Scope} {e : Expr} (h : e.MeetsAny scope) :
    Breaks (e.check scope) := by
  induction h with
  | unary _ ih => simp only [Expr.check, breaks_bind, ih, true_or]
  | left _ ih => simp only [Expr.check, breaks_bind, ih, true_or]
  | right left _ ih =>
    simp only [Expr.check, breaks_bind]
    exact Or.inr ⟨_, left, Or.inl ih⟩
  | operand left right any =>
    simp only [Expr.check, breaks_bind, BinOp.check_breaks]
    exact Or.inr ⟨_, left, Or.inr ⟨_, right, Or.inl any⟩⟩
  | paren _ ih => simp only [Expr.check, breaks_bind, ih, true_or]
  | builtin found count passed _ ih =>
    simp only [Expr.check, found, breaks_bind]
    exact Or.inr ⟨(), Signature.checkCount_eq_ok.2 count,
      Or.inl ((Expr.checkArgs_breaks count).2 ⟨_, _, _, rfl, passed, Or.inl ih⟩)⟩
  | builtinArg found count passed checked any =>
    simp only [Expr.check, found, breaks_bind]
    exact Or.inr ⟨(), Signature.checkCount_eq_ok.2 count,
      Or.inl ((Expr.checkArgs_breaks count).2 ⟨_, _, _, rfl, passed, Or.inr ⟨_, checked, any⟩⟩)⟩
  | receiver _ ih => simp only [Expr.check, breaks_bind, ih, true_or]
  | method receiver passed _ ih =>
    simp only [Expr.check, breaks_bind, Expr.checkAll_eq_mapM, breaks_mapM]
    exact Or.inr ⟨_, receiver, Or.inl ⟨_, _, _, rfl, passed, ih⟩⟩
  | methodArg receiver passed known count any fits =>
    simp only [Expr.check, breaks_bind]
    refine Or.inr ⟨_, receiver, Or.inr ⟨_, passed, Or.inr ⟨_, known, Or.inr ⟨(), ?_, Or.inl ?_⟩⟩⟩⟩
    · exact Signature.checkCount_eq_ok.2 count
    · exact (checkArgTys_breaks (by rw [List.length_map, count])).2 ⟨_, _, any, fits⟩
  | field _ ih => simp only [Expr.check, breaks_bind, ih, true_or]

/-- The other direction: nothing else breaks the check of an expression. -/
theorem Expr.meetsAny_of_breaks {scope : Scope} {e : Expr} (h : Breaks (e.check scope)) :
    e.MeetsAny scope := by
  cases e with
  | literal value => exact absurd h not_breaks_ok
  | id name =>
    rw [Expr.check, not_breaks_bind_pure] at h
    exact absurd h (scope.var_failsNaming _).not_breaks
  | unary op arg =>
    rw [Expr.check, breaks_bind] at h
    rcases h with h | ⟨a, _, h⟩
    · exact .unary (meetsAny_of_breaks h)
    · split at h
      · exact absurd h not_breaks_pure
      · exact absurd h (not_breaks_throw rfl)
  | binary op lhs rhs =>
    rw [Expr.check, breaks_bind] at h
    rcases h with h | ⟨l, hl, h⟩
    · exact .left (meetsAny_of_breaks h)
    rw [breaks_bind] at h
    rcases h with h | ⟨r, hr, h⟩
    · exact .right hl (meetsAny_of_breaks h)
    · rw [not_breaks_bind_pure, BinOp.check_breaks] at h
      exact .operand hl hr h
  | paren arg =>
    rw [Expr.check, not_breaks_bind_pure] at h
    exact .paren (meetsAny_of_breaks h)
  | call name args =>
    rw [Expr.check] at h
    split at h
    · exact absurd h (checkConstruct_failsNaming scope _ _).not_breaks
    · next signature found =>
      rw [breaks_bind] at h
      rcases h with h | ⟨_, count, h⟩
      · exact absurd h (Signature.checkCount_failsNaming _ _ _).not_breaks
      · rw [Signature.checkCount_eq_ok] at count
        rw [not_breaks_bind_pure, Expr.checkArgs_breaks count] at h
        obtain ⟨before, arg, after, rfl, passed, h | ⟨a, checked, any⟩⟩ := h
        · have mem : arg ∈ before ++ arg :: after := List.mem_append_right _ List.mem_cons_self
          exact .builtin found count passed (meetsAny_of_breaks h)
        · exact .builtinArg found count passed checked any
  | methodCall obj name args =>
    rw [Expr.check, breaks_bind] at h
    rcases h with h | ⟨o, hobj, h⟩
    · exact .receiver (meetsAny_of_breaks h)
    rw [breaks_bind] at h
    rcases h with h | ⟨as, hargs, h⟩
    · rw [Expr.checkAll_eq_mapM, breaks_mapM] at h
      obtain ⟨before, arg, after, rfl, passed, h⟩ := h
      have mem : arg ∈ before ++ arg :: after := List.mem_append_right _ List.mem_cons_self
      exact .method hobj passed (meetsAny_of_breaks h)
    rw [breaks_bind] at h
    rcases h with h | ⟨⟨cls, signature⟩, known, h⟩
    · exact absurd h (scope.methodSignature_failsNaming _ _).not_breaks
    · simp only [breaks_bind, not_breaks_pure, and_false, exists_false, or_false] at h
      rcases h with h | ⟨_, count, h⟩
      · exact absurd h (Signature.checkCount_failsNaming _ _ _).not_breaks
      · rw [Signature.checkCount_eq_ok] at count
        have countTys : (as.map Typed.Expr.ty).length = signature.params.length := by
          rw [List.length_map, count]
        obtain ⟨before, after, any, fits⟩ := (checkArgTys_breaks countTys).1 h
        exact .methodArg hobj hargs known count any fits
  | field obj name =>
    rw [Expr.check, breaks_bind] at h
    rcases h with h | ⟨o, _, h⟩
    · exact .field (meetsAny_of_breaks h)
    · rw [not_breaks_bind_pure] at h
      exact absurd h (scope.fieldTy_failsNaming _ _).not_breaks

theorem Expr.breaks_iff {scope : Scope} {e : Expr} :
    Breaks (e.check scope) ↔ e.MeetsAny scope :=
  ⟨meetsAny_of_breaks, MeetsAny.breaks⟩

/-! ## Statements -/

mutual

/-- Everything in the statement that is looked at before passes, and then a value of type `any` is
used in an expression, assigned or returned. -/
inductive Stmt.MeetsAny (scope : Scope) : Stmt → Prop
  | value {lhs : LValue} {value : Expr} {target : Typed.LValue}
    (target : lhs.check scope = .ok target) (inner : value.MeetsAny scope) :
    Stmt.MeetsAny scope (.assign lhs value)
  | assigned {lhs : LValue} {value : Expr} {target : Typed.LValue} {v : Typed.Expr}
    (target : lhs.check scope = .ok target) (checked : value.check scope = .ok v)
    (any : v.ty = .any) : Stmt.MeetsAny scope (.assign lhs value)
  | expr {e : Expr} (inner : e.MeetsAny scope) : Stmt.MeetsAny scope (.expr e)
  | ret {e : Expr} (inside : scope.inMethod = true) (inner : e.MeetsAny scope) :
    Stmt.MeetsAny scope (.ret (some e))
  | returned {e : Expr} {te : Typed.Expr} (inside : scope.inMethod = true)
    (checked : e.check scope = .ok te) (any : te.ty = .any) :
    Stmt.MeetsAny scope (.ret (some e))
  | branch {arm : Arm} (inner : Arm.MeetsAny scope arm) : Stmt.MeetsAny scope (.branch arm)

inductive Arm.MeetsAny (scope : Scope) : Arm → Prop
  | condition {e : Expr} {body : List Stmt} {alternative : Option Arm}
    (inner : e.MeetsAny scope) : Arm.MeetsAny scope (.mk (some e) body alternative)
  | alternative {condition : Option Expr} {body : List Stmt} {arm : Arm}
    {test : Option Typed.Expr} (passed : checkCondition scope condition = .ok test)
    (inner : Arm.MeetsAny scope arm) : Arm.MeetsAny scope (.mk condition body (some arm))
  | body {condition : Option Expr} {before : List Stmt} {s : Stmt} {after : List Stmt}
    {alternative : Option Arm} {test : Option Typed.Expr} {other : Option Typed.Arm}
    (passed : checkCondition scope condition = .ok test)
    (passedOther : Arm.checkAlternative scope alternative = .ok other)
    (passedBefore : ∀ b ∈ before, ∃ tb, Stmt.check scope b = .ok tb)
    (inner : Stmt.MeetsAny scope s) :
    Arm.MeetsAny scope (.mk condition (before ++ s :: after) alternative)

end

theorem checkCondition_breaks {scope : Scope} {condition : Option Expr} :
    Breaks (checkCondition scope condition) ↔ ∃ e, condition = some e ∧ e.MeetsAny scope := by
  cases condition with
  | none => exact iff_of_false not_breaks_ok fun ⟨_, h, _⟩ => nomatch h
  | some e =>
    rw [checkCondition, breaks_bind, Expr.breaks_iff]
    constructor
    · rintro (broken | ⟨te, _, broken⟩)
      · exact ⟨e, rfl, broken⟩
      · split at broken
        · exact absurd broken not_breaks_pure
        · exact absurd broken (not_breaks_throw rfl)
    · rintro ⟨_, ⟨⟩, inner⟩
      exact Or.inl inner

theorem checkReturn_breaks {scope : Scope} {value : Option Expr} :
    Breaks (checkReturn scope value) ↔ (Stmt.ret value).MeetsAny scope := by
  unfold checkReturn
  cases inside : scope.inMethod with
  | false =>
    refine iff_of_false ?_ ?_
    · cases value <;> exact not_breaks_throw rfl
    · intro h
      cases h with
      | ret yes | returned yes => cases inside.symm.trans yes
  | true =>
    simp only [Bool.not_true, Bool.false_eq_true, if_false]
    cases value with
    | none => exact iff_of_false not_breaks_pure nofun
    | some e =>
      simp only
      rw [breaks_bind, Expr.breaks_iff]
      constructor
      · rintro (inner | ⟨te, checked, broken⟩)
        · exact .ret inside inner
        · rw [not_breaks_bind_pure, Ty.require_breaks rfl] at broken
          exact .returned inside checked broken
      · intro h
        cases h with
        | ret _ inner => exact Or.inl inner
        | returned _ checked any =>
          refine Or.inr ⟨_, checked, ?_⟩
          rw [not_breaks_bind_pure, Ty.require_breaks rfl]
          exact any

mutual

theorem Stmt.breaks_iff {scope : Scope} {s : Stmt} :
    Breaks (s.check scope) ↔ s.MeetsAny scope := by
  cases s with
  | assign lhs value =>
    rw [Stmt.check, breaks_bind, or_iff_right (LValue.check_failsNaming scope _).not_breaks]
    constructor
    · rintro ⟨target, htarget, broken⟩
      rw [breaks_bind, Expr.breaks_iff] at broken
      rcases broken with inner | ⟨v, checked, broken⟩
      · exact .value htarget inner
      · rw [not_breaks_bind_pure, Ty.require_breaks rfl] at broken
        exact .assigned htarget checked broken
    · intro h
      cases h with
      | value target inner =>
        refine ⟨_, target, ?_⟩
        rw [breaks_bind, Expr.breaks_iff]
        exact Or.inl inner
      | assigned target checked any =>
        refine ⟨_, target, ?_⟩
        rw [breaks_bind]
        refine Or.inr ⟨_, checked, ?_⟩
        rw [not_breaks_bind_pure, Ty.require_breaks rfl]
        exact any
  | expr e =>
    rw [Stmt.check, not_breaks_bind_pure, Expr.breaks_iff]
    exact ⟨.expr, fun h => by cases h with | expr inner => exact inner⟩
  | ret value =>
    rw [Stmt.check]
    exact checkReturn_breaks
  | branch arm =>
    rw [Stmt.check, not_breaks_bind_pure, Arm.breaks_iff]
    exact ⟨.branch, fun h => by cases h with | branch inner => exact inner⟩
  | pass => exact iff_of_false not_breaks_ok nofun

theorem Arm.breaks_iff {scope : Scope} {arm : Arm} :
    Breaks (arm.check scope) ↔ arm.MeetsAny scope := by
  cases arm with
  | mk condition body alternative =>
    rw [Arm.check, breaks_bind, checkCondition_breaks]
    constructor
    · rintro (⟨e, rfl, inner⟩ | ⟨test, passed, broken⟩)
      · exact .condition inner
      rw [breaks_bind] at broken
      rcases broken with broken | ⟨other, passedOther, broken⟩
      · obtain ⟨arm, rfl, inner⟩ := Arm.breaks_checkAlternative.1 broken
        exact .alternative passed inner
      rw [breaks_bind] at broken
      rcases broken with broken | ⟨_, _, broken⟩
      · obtain ⟨before, s, after, rfl, passedBefore, inner⟩ := Stmt.breaks_checkAll.1 broken
        exact .body passed passedOther passedBefore inner
      · split at broken
        · exact absurd broken not_breaks_pure
        · exact absurd broken (not_breaks_throw rfl)
    · intro h
      cases h with
      | condition inner => exact Or.inl ⟨_, rfl, inner⟩
      | alternative passed inner =>
        refine Or.inr ⟨_, passed, ?_⟩
        rw [breaks_bind]
        exact Or.inl (Arm.breaks_checkAlternative.2 ⟨_, rfl, inner⟩)
      | body passed passedOther passedBefore inner =>
        refine Or.inr ⟨_, passed, ?_⟩
        rw [breaks_bind]
        refine Or.inr ⟨_, passedOther, ?_⟩
        rw [breaks_bind]
        exact Or.inl (Stmt.breaks_checkAll.2 ⟨_, _, _, rfl, passedBefore, inner⟩)

theorem Arm.breaks_checkAlternative {scope : Scope} {alternative : Option Arm} :
    Breaks (Arm.checkAlternative scope alternative) ↔
      ∃ arm, alternative = some arm ∧ arm.MeetsAny scope := by
  cases alternative with
  | none => exact iff_of_false not_breaks_ok fun ⟨_, h, _⟩ => nomatch h
  | some arm =>
    rw [Arm.checkAlternative, not_breaks_bind_pure, Arm.breaks_iff]
    exact ⟨fun inner => ⟨arm, rfl, inner⟩, fun ⟨_, eq, inner⟩ => Option.some.inj eq ▸ inner⟩

theorem Stmt.breaks_checkAll {scope : Scope} {ss : List Stmt} :
    Breaks (Stmt.checkAll scope ss) ↔
      ∃ before s after, ss = before ++ s :: after ∧
        (∀ b ∈ before, ∃ tb, Stmt.check scope b = .ok tb) ∧ s.MeetsAny scope := by
  cases ss with
  | nil =>
    refine iff_of_false not_breaks_ok ?_
    rintro ⟨before, s, after, eq, _⟩
    cases before <;> cases eq
  | cons s ss =>
    rw [Stmt.checkAll, breaks_bind, Stmt.breaks_iff]
    constructor
    · rintro (inner | ⟨ts, hs, broken⟩)
      · exact ⟨[], s, ss, rfl, List.forall_mem_nil _, inner⟩
      · rw [not_breaks_bind_pure, Stmt.breaks_checkAll] at broken
        obtain ⟨before, s', after, rfl, passed, inner⟩ := broken
        exact ⟨s :: before, s', after, rfl, List.forall_mem_cons.2 ⟨⟨ts, hs⟩, passed⟩, inner⟩
    · rintro ⟨before, s', after, eq, passed, inner⟩
      cases before with
      | nil =>
        cases eq
        exact Or.inl inner
      | cons first before =>
        cases eq
        obtain ⟨⟨ts, hs⟩, passed⟩ := List.forall_mem_cons.1 passed
        refine Or.inr ⟨ts, hs, ?_⟩
        rw [not_breaks_bind_pure, Stmt.breaks_checkAll]
        exact ⟨before, s', after, rfl, passed, inner⟩

end

end Source
end ClassLang
