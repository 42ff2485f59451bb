/-
Expressions leave one word, statements none, whatever the code around them.
-/
import ClassLang.Proofs.Lowering.Module
import ClassLang.Proofs.Stack.Height

namespace ClassLang

open Code (Lifts Settles)

theorem BinOp.lifts_instr (op : BinOp) : Lifts [op.instr] 2 1 := by
  cases op <;> exact .instr rfl

theorem UnOp.lifts_code (op : UnOp) : Lifts op.code 1 1 := by
  cases op with
  | plus => exact .nil 1
  | not =>
    have one : Lifts [.const 1] 0 1 := .instr rfl
    exact (one.below 1).append (.instr rfl)
  | neg =>
    have minusOne : Lifts [.const (-1)] 0 1 := .instr rfl
    exact (minusOne.below 1).append (.instr rfl)

/-- The word that is looked at stays. -/
theorem lifts_guardAbsent : Lifts guardAbsent 1 1 := by
  intro result words ended
  simp [guardAbsent, Code.scan, Code.alternativeFits, Instr.fits, Instr.pops, Instr.pushes,
    Instr.isRet, Height.after, Height.start]

namespace Scope

variable {scope : Scope} {name : String} {i : Instr}

theorem lifts_readVar (h : scope.readVar name = .ok i) : Lifts [i] 0 1 := by
  unfold readVar at h
  rw [bind_eq_ok] at h
  obtain ⟨isGlobal, -, h⟩ := h
  cases isGlobal <;> cases h
  · exact .instr rfl
  · exact .instr rfl

theorem lifts_writeVar (h : scope.writeVar name = .ok i) : Lifts [i] 1 0 := by
  unfold writeVar at h
  rw [bind_eq_ok] at h
  obtain ⟨isGlobal, -, h⟩ := h
  cases isGlobal <;> cases h
  · exact .instr rfl
  · exact .instr rfl

theorem lifts_fieldAddress {obj : Ty} {code : Code} (h : scope.fieldAddress obj name = .ok code) :
    Lifts code 1 1 := by
  unfold fieldAddress at h
  split at h
  · split at h
    · split at h
      · next offset _ =>
        cases h
        have const : Lifts [.const offset.toInt32] 0 1 := .instr rfl
        exact lifts_guardAbsent.append ((const.below 1).append (.instr rfl))
      · cases h
    · cases h
  · cases h

end Scope

namespace Typed

theorem lifts_lowerAll {scope : Scope} {es : List Expr}
    (h : ∀ e ∈ es, ∀ code, e.lower scope = .ok code → Lifts code 0 1) {code : Code}
    (lowered : Expr.lowerAll scope es = .ok code) : Lifts code 0 es.length := by
  induction es generalizing code with
  | nil =>
    cases lowered
    exact .nil 0
  | cons e es ih =>
    simp only [Expr.lowerAll, bind_eq_ok, pure_eq_ok] at lowered
    obtain ⟨first, hfirst, rest, hrest, rfl⟩ := lowered
    have lifts := ih (fun e mem => h e (List.mem_cons_of_mem _ mem)) hrest
    rw [List.length_cons, Nat.add_comm]
    exact (h e List.mem_cons_self first hfirst).append (lifts.below 1)

theorem Expr.Checked.lifts {scope : Scope} (ready : scope.Ready) {e : Expr} (h : e.Checked scope)
    {code : Code} (lowered : e.lower scope = .ok code) : Lifts code 0 1 := by
  have concrete := h.ty_ne_any ready.concrete
  induction h generalizing code with
  | literal value =>
    cases (Expr.lower_literal concrete).1 lowered
    exact .instr rfl
  | id =>
    obtain ⟨read, hread, rfl⟩ := (Expr.lower_id concrete).1 lowered
    exact Scope.lifts_readVar hread
  | @unary op arg checked _ ih =>
    obtain ⟨c, hc, rfl⟩ := (Expr.lower_unary concrete).1 lowered
    exact (ih hc (checked.ty_ne_any ready.concrete)).append op.lifts_code
  | @binary op lhs rhs ty left right _ ihl ihr =>
    obtain ⟨l, hl, r, hr, rfl⟩ := (Expr.lower_binary concrete).1 lowered
    have liftsL := ihl hl (left.ty_ne_any ready.concrete)
    have liftsR := ihr hr (right.ty_ne_any ready.concrete)
    exact (liftsL.append (liftsR.below 1)).append op.lifts_instr
  | paren checked ih =>
    exact ih ((Expr.lower_paren concrete).1 lowered) (checked.ty_ne_any ready.concrete)
  | call found checked passed ih =>
    obtain ⟨c, hc, call, hcall, rfl⟩ := (Expr.lower_call concrete).1 lowered
    rw [callBuiltin_ok (ready.concrete.functions ▸ found) passed] at hcall
    cases hcall
    rw [List.length_map]
    have lifts := lifts_lowerAll
      (fun e mem _ he => ih e mem he ((checked e mem).ty_ne_any ready.concrete)) hc
    exact lifts.append (.instr rfl)
  | construct =>
    cases (Expr.lower_construct concrete).1 lowered
    exact .instr rfl
  | methodCall receiver object _ _ _ checked _ ihr ih =>
    obtain ⟨obj, hobj, c, hc, rfl⟩ := (Expr.lower_methodCall concrete object).1 lowered
    have lifts := lifts_lowerAll
      (fun e mem _ he => ih e mem he ((checked e mem).ty_ne_any ready.concrete)) hc
    have liftsObj := (ihr hobj (receiver.ty_ne_any ready.concrete)).append lifts_guardAbsent
    refine (liftsObj.append (lifts.below 1)).append ?_
    rw [Nat.add_comm]
    exact .instr rfl
  | field receiver _ _ _ ih =>
    obtain ⟨obj, hobj, address, haddress, rfl⟩ := (Expr.lower_field concrete).1 lowered
    have liftsObj := ih hobj (receiver.ty_ne_any ready.concrete)
    exact (liftsObj.append (Scope.lifts_fieldAddress haddress)).append (.instr rfl)

theorem LValue.lifts_lowerRead {scope : Scope} {target : LValue} {code : Code}
    (lowered : target.lowerRead scope = .ok code) : Lifts code 0 1 := by
  induction target generalizing code with
  | var ty name =>
    obtain ⟨read, hread, rfl⟩ := LValue.lowerRead_var.1 lowered
    exact Scope.lifts_readVar hread
  | field ty obj name ih =>
    obtain ⟨o, ho, address, haddress, rfl⟩ := LValue.lowerRead_field.1 lowered
    exact ((ih ho).append (Scope.lifts_fieldAddress haddress)).append (.instr rfl)

theorem LValue.lifts_lowerWrite {scope : Scope} (ready : scope.Ready) {target : LValue}
    {value : Expr} (checked : value.Checked scope) {code : Code}
    (lowered : target.lowerWrite scope value = .ok code) : Lifts code 0 0 := by
  cases target with
  | var ty name =>
    obtain ⟨v, hv, write, hwrite, rfl⟩ := LValue.lowerWrite_var.1 lowered
    exact (checked.lifts ready hv).append (Scope.lifts_writeVar hwrite)
  | field ty obj name =>
    obtain ⟨o, ho, address, haddress, v, hv, rfl⟩ := LValue.lowerWrite_field.1 lowered
    have liftsAddress := (LValue.lifts_lowerRead ho).append (Scope.lifts_fieldAddress haddress)
    exact (liftsAddress.append ((checked.lifts ready hv).below 1)).append (.instr rfl)

theorem scan_bare (bare : BareReturn) (ended : Bool) :
    Code.scan true ⟨0, ended⟩ bare.code = some ⟨0, true⟩ := by
  cases bare with
  | zero =>
    have lifts : Lifts [.const 0] 0 1 := .instr rfl
    exact Settles.scan_ret lifts ended
  | self =>
    have lifts : Lifts [.localGet "self"] 0 1 := .instr rfl
    exact Settles.scan_ret lifts ended

mutual

/-- A return needs a function with a result. -/
theorem Stmt.Checked.settles {scope : Scope} (ready : scope.Ready) {result : Bool}
    (allowed : scope.inMethod = true → result = true) {bare : BareReturn} {s : Stmt}
    (h : s.Checked scope) {code : Code} (lowered : s.lower scope bare = .ok code) :
    Settles code result := by
  cases h with
  | assign _ checked _ =>
    rw [Stmt.lower] at lowered
    exact .of_lifts (LValue.lifts_lowerWrite ready checked lowered)
  | expr checked =>
    obtain ⟨c, hc, rfl⟩ := Stmt.lower_expr.1 lowered
    exact .of_lifts ((checked.lifts ready hc).append (.instr rfl))
  | bareRet inside =>
    rw [Stmt.lower, lowerReturn_none inside] at lowered
    subst lowered
    rw [allowed inside]
    exact fun ended => ⟨true, scan_bare bare ended⟩
  | ret inside checked _ =>
    rw [Stmt.lower, lowerReturn_some inside] at lowered
    rw [allowed inside]
    rcases lowered with ⟨-, rfl⟩ | ⟨-, c, hc, rfl⟩
    · exact fun ended => ⟨true, scan_bare bare ended⟩
    · exact fun ended => ⟨true, Settles.scan_ret (checked.lifts ready hc) ended⟩
  | branch checked =>
    rw [Stmt.lower] at lowered
    exact Arm.Checked.settles ready allowed checked lowered
  | pass =>
    cases lowered
    exact .of_lifts (.instr rfl)

theorem Arm.Checked.settles {scope : Scope} (ready : scope.Ready) {result : Bool}
    (allowed : scope.inMethod = true → result = true) {bare : BareReturn} {arm : Arm}
    (h : arm.Checked scope) {code : Code} (lowered : arm.lower scope bare = .ok code) :
    Settles code result := by
  cases h with
  | @mk ty condition body alternative test other block merged =>
    cases condition with
    | none =>
      obtain ⟨last, -⟩ := armTy?_else merged
      cases Option.map_eq_none_iff.1 last
      exact Stmt.settles_lowerAll ready allowed block (Arm.lower_else.1 lowered)
    | some e =>
      obtain ⟨yes, hyes, no, hno, c, hc, rfl⟩ := Arm.lower_if.1 lowered
      refine .branch ((test e rfl).1.lifts ready hc)
        (Stmt.settles_lowerAll ready allowed block hyes) ?_
      exact Arm.settles_alternative ready allowed other hno

theorem Arm.settles_alternative {scope : Scope} (ready : scope.Ready) {result : Bool}
    (allowed : scope.inMethod = true → result = true) {bare : BareReturn}
    {alternative : Option Arm} (h : ∀ arm ∈ alternative, arm.Checked scope) {no : Option Code}
    (lowered : Arm.lowerAlternative scope bare alternative = .ok no) :
    ∀ code ∈ no, Settles code result := by
  cases alternative with
  | none =>
    cases lowered
    exact fun _ mem => nomatch mem
  | some arm =>
    obtain ⟨c, hc, rfl⟩ := Arm.lowerAlternative_some.1 lowered
    intro code mem
    cases mem
    exact Arm.Checked.settles ready allowed (h arm rfl) hc

theorem Stmt.settles_lowerAll {scope : Scope} (ready : scope.Ready) {result : Bool}
    (allowed : scope.inMethod = true → result = true) {bare : BareReturn} {ss : List Stmt}
    (h : ∀ s ∈ ss, s.Checked scope) {code : Code}
    (lowered : Stmt.lowerAll scope bare ss = .ok code) : Settles code result := by
  cases ss with
  | nil =>
    cases lowered
    exact .of_lifts (.nil 0)
  | cons s ss =>
    obtain ⟨first, rest⟩ := List.forall_mem_cons.1 h
    obtain ⟨c, hc, cs, hcs, rfl⟩ := Stmt.lowerAll_cons.1 lowered
    exact (Stmt.Checked.settles ready allowed first hc).append
      (Stmt.settles_lowerAll ready allowed rest hcs)

end

end Typed
end ClassLang
