/-
The generator succeeds on what the checker has passed.
-/
import ClassLang.Proofs.Lowering.Ready
import ClassLang.Proofs.Lowering.Shape

namespace ClassLang

theorem Scope.Ready.fieldAddress_ok {scope : Scope} (ready : scope.Ready) {cls field : String}
    {info : ClassInfo} {ty : Ty} (found : scope.classes.get? cls = some info)
    (declared : info.fields.get? field = some ty) :
    ∃ offset : UInt32, scope.fieldAddress (.object cls) field =
      .ok (guardAbsent ++ [Instr.const offset.toInt32, .add]) := by
  obtain ⟨layout, laid, lies⟩ := ready.laidOut cls info found
  obtain ⟨offset, lies⟩ := lies field ty declared
  exact ⟨offset, Scope.fieldAddress_of_found found laid lies⟩

namespace Typed

theorem Expr.lowerAll_ok {scope : Scope} {es : List Expr}
    (h : ∀ e ∈ es, ∃ code, e.lower scope = .ok code) :
    ∃ code, Expr.lowerAll scope es = .ok code := by
  induction es with
  | nil => exact ⟨[], rfl⟩
  | cons e es ih =>
    obtain ⟨code, he⟩ := h e List.mem_cons_self
    obtain ⟨rest, hes⟩ := ih fun e mem => h e (List.mem_cons_of_mem _ mem)
    exact ⟨code ++ rest, by rw [Expr.lowerAll, he, hes]; rfl⟩

section Bodies

variable {scope : Scope} (ready : scope.Ready)

include ready

theorem Expr.Checked.lower_ok {e : Expr} (h : e.Checked scope) :
    ∃ code, e.lower scope = .ok code := by
  have concrete := h.ty_ne_any ready.concrete
  induction h with
  | literal value => exact ⟨_, (Expr.lower_literal concrete).2 rfl⟩
  | id found => exact ⟨_, (Expr.lower_id concrete).2 ⟨_, Scope.readVar_of_found found, rfl⟩⟩
  | unary checked _ ih =>
    obtain ⟨code, h⟩ := ih (checked.ty_ne_any ready.concrete)
    exact ⟨_, (Expr.lower_unary concrete).2 ⟨code, h, rfl⟩⟩
  | binary left right operands ihl ihr =>
    obtain ⟨l, hl⟩ := ihl (left.ty_ne_any ready.concrete)
    obtain ⟨r, hr⟩ := ihr (right.ty_ne_any ready.concrete)
    exact ⟨_, (Expr.lower_binary concrete).2 ⟨l, hl, r, hr, rfl⟩⟩
  | paren checked ih =>
    obtain ⟨code, h⟩ := ih (checked.ty_ne_any ready.concrete)
    exact ⟨code, (Expr.lower_paren concrete).2 h⟩
  | call found checked passed ih =>
    obtain ⟨code, h⟩ := Expr.lowerAll_ok fun e mem =>
      ih e mem ((checked e mem).ty_ne_any ready.concrete)
    have call := callBuiltin_ok (ready.concrete.functions ▸ found) passed
    exact ⟨_, (Expr.lower_call concrete).2 ⟨code, h, _, call, rfl⟩⟩
  | construct => exact ⟨_, (Expr.lower_construct concrete).2 rfl⟩
  | methodCall receiver object _ _ _ checked _ ihr ih =>
    obtain ⟨obj, hobj⟩ := ihr (receiver.ty_ne_any ready.concrete)
    obtain ⟨code, h⟩ := Expr.lowerAll_ok fun e mem =>
      ih e mem ((checked e mem).ty_ne_any ready.concrete)
    exact ⟨_, (Expr.lower_methodCall concrete object).2 ⟨obj, hobj, code, h, rfl⟩⟩
  | field receiver object found field ih =>
    obtain ⟨obj, hobj⟩ := ih (receiver.ty_ne_any ready.concrete)
    obtain ⟨offset, address⟩ := ready.fieldAddress_ok found field
    exact ⟨_, (Expr.lower_field concrete).2 ⟨obj, hobj, _, object ▸ address, rfl⟩⟩

theorem LValue.Readable.lowerRead_ok {target : LValue} (h : target.Readable scope) :
    ∃ code, target.lowerRead scope = .ok code := by
  induction h with
  | var found => exact ⟨_, LValue.lowerRead_var.2 ⟨_, Scope.readVar_of_found found, rfl⟩⟩
  | field _ object found field ih =>
    obtain ⟨obj, hobj⟩ := ih
    obtain ⟨offset, address⟩ := ready.fieldAddress_ok found field
    exact ⟨_, LValue.lowerRead_field.2 ⟨obj, hobj, _, object ▸ address, rfl⟩⟩

theorem LValue.Writable.lowerWrite_ok {target : LValue} (h : target.Writable scope) {value : Expr}
    (checked : value.Checked scope) : ∃ code, target.lowerWrite scope value = .ok code := by
  obtain ⟨v, hv⟩ := checked.lower_ok ready
  cases h with
  | var found _ =>
    exact ⟨_, LValue.lowerWrite_var.2 ⟨v, hv, _, Scope.writeVar_of_found found, rfl⟩⟩
  | field receiver object found field =>
    obtain ⟨obj, hobj⟩ := receiver.lowerRead_ok ready
    obtain ⟨offset, address⟩ := ready.fieldAddress_ok found field
    exact ⟨_, LValue.lowerWrite_field.2 ⟨obj, hobj, _, object ▸ address, v, hv, rfl⟩⟩

theorem lowerReturn_ok (bare : BareReturn) (inside : scope.inMethod = true) {value : Option Expr}
    (checked : ∀ e ∈ value, e.Checked scope) :
    ∃ code, lowerReturn scope bare value = .ok code := by
  cases value with
  | none => exact ⟨_, (lowerReturn_none inside).2 rfl⟩
  | some e =>
    by_cases plain : bare = .self ∧ ∃ ty, e = .literal ty .none
    · exact ⟨_, (lowerReturn_some inside).2 (Or.inl ⟨plain, rfl⟩)⟩
    · obtain ⟨code, h⟩ := (checked e rfl).lower_ok ready
      exact ⟨_, (lowerReturn_some inside).2 (Or.inr ⟨plain, code, h, rfl⟩)⟩

end Bodies

/-- An arm without a condition is the last of its chain. -/
theorem armTy?_else {alternative : Option Ty} {body ty : Ty}
    (merged : armTy? false alternative body = some ty) : alternative = none ∧ ty = body := by
  cases alternative with
  | none => exact ⟨rfl, (Option.some.inj merged).symm⟩
  | some other => cases merged

mutual

theorem Stmt.Checked.lower_ok {scope : Scope} (ready : scope.Ready) (bare : BareReturn) {s : Stmt}
    (h : s.Checked scope) : ∃ code, s.lower scope bare = .ok code := by
  cases h with
  | assign target checked _ =>
    simp only [Stmt.lower]
    exact target.lowerWrite_ok ready checked
  | expr checked =>
    obtain ⟨code, h⟩ := checked.lower_ok ready
    exact ⟨_, Stmt.lower_expr.2 ⟨code, h, rfl⟩⟩
  | bareRet inside =>
    simp only [Stmt.lower]
    exact lowerReturn_ok ready bare inside fun _ mem => nomatch mem
  | ret inside checked _ =>
    simp only [Stmt.lower]
    exact lowerReturn_ok ready bare inside fun _ mem => Option.some.inj mem ▸ checked
  | branch checked =>
    simp only [Stmt.lower]
    exact Arm.Checked.lower_ok ready bare checked
  | pass => exact ⟨_, rfl⟩

theorem Arm.Checked.lower_ok {scope : Scope} (ready : scope.Ready) (bare : BareReturn) {arm : Arm}
    (h : arm.Checked scope) : ∃ code, arm.lower scope bare = .ok code := by
  cases h with
  | @mk ty condition body alternative test other block merged =>
    obtain ⟨yes, hyes⟩ := Stmt.lowerAll_ok ready bare block
    cases condition with
    | none =>
      obtain ⟨last, -⟩ := armTy?_else merged
      cases Option.map_eq_none_iff.1 last
      exact ⟨yes, Arm.lower_else.2 hyes⟩
    | some e =>
      obtain ⟨no, hno⟩ := Arm.lowerAlternative_ok ready bare other
      obtain ⟨code, h⟩ := (test e rfl).1.lower_ok ready
      exact ⟨_, Arm.lower_if.2 ⟨yes, hyes, no, hno, code, h, rfl⟩⟩

theorem Arm.lowerAlternative_ok {scope : Scope} (ready : scope.Ready) (bare : BareReturn)
    {alternative : Option Arm} (h : ∀ arm ∈ alternative, arm.Checked scope) :
    ∃ no, Arm.lowerAlternative scope bare alternative = .ok no := by
  cases alternative with
  | none => exact ⟨none, rfl⟩
  | some arm =>
    obtain ⟨code, h⟩ := Arm.Checked.lower_ok ready bare (h arm rfl)
    exact ⟨_, Arm.lowerAlternative_some.2 ⟨code, h, rfl⟩⟩

theorem Stmt.lowerAll_ok {scope : Scope} (ready : scope.Ready) (bare : BareReturn)
    {ss : List Stmt} (h : ∀ s ∈ ss, s.Checked scope) :
    ∃ code, Stmt.lowerAll scope bare ss = .ok code := by
  cases ss with
  | nil => exact ⟨[], rfl⟩
  | cons s ss =>
    obtain ⟨first, rest⟩ := List.forall_mem_cons.1 h
    obtain ⟨code, h⟩ := Stmt.Checked.lower_ok ready bare first
    obtain ⟨codes, hs⟩ := Stmt.lowerAll_ok ready bare rest
    exact ⟨_, Stmt.lowerAll_cons.2 ⟨code, h, codes, hs, rfl⟩⟩

end

end Typed
end ClassLang
