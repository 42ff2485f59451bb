/-
Statements: where their code goes with control.

Statements find the stack of a function empty and leave it so, unless they return.
-/
import ClassLang.Proofs.Simulation.Expr

namespace ClassLang

open Machine (Frame Outcome Reaches State)
open Typed (Flow)

namespace Setting

variable {S : Setting} {act : Activation} {code : Code} {stack : List Int32} {w : World}
  {s : State} {call : Calls}

/-! ## Targets -/

theorem follows_target (body : S.Body act.scope) {target : Typed.LValue}
    (readable : target.Readable act.scope) {c : Code}
    (lowered : target.lowerRead act.scope = .ok c) (start : S.At act (c ++ code) stack w s) :
    S.Follows (target.eval w) (S.Pushed act code stack target.ty) s := by
  induction readable generalizing c code w s with
  | var found =>
    obtain ⟨read, hread, rfl⟩ := Typed.LValue.lowerRead_var.1 lowered
    exact follows_readVar body found hread start
  | field receiver object found field ih =>
    obtain ⟨o, ho, address, haddress, rfl⟩ := Typed.LValue.lowerRead_field.1 lowered
    rw [List.append_assoc, List.append_assoc] at start
    rw [Typed.LValue.eval]
    refine .bind (ih ho start) (fun v => .bind (grows_deref v) fun id => grows_readField id _) ?_
    intro v w₁ t _ pushed
    obtain ⟨fits, there⟩ := pushed
    rw [object] at fits haddress
    refine .bind (follows_fieldAddress body found field haddress fits there)
      (fun id => grows_readField id _) ?_
    intro id w₁' t' _ passed
    obtain ⟨rfl, a, slot, there'⟩ := passed
    exact follows_readField slot there'

/-- The address of a field waits on the stack while the value is computed. -/
theorem follows_assign (serves : S.Serves call) (body : S.Body act.scope) {target : Typed.LValue}
    (writable : target.Writable act.scope) {value : Typed.Expr}
    (checked : value.Checked act.scope) (takes : target.ty.Takes value.ty) {c : Code}
    (lowered : target.lowerWrite act.scope value = .ok c)
    (start : S.At act (c ++ code) stack w s) :
    S.Follows (target.assign S.program S.answers call value w) (fun _ => S.At act code stack)
      s := by
  have computes := computes serves body checked
  cases writable with
  | var found assignable =>
    obtain ⟨v, hv, write, hwrite, rfl⟩ := Typed.LValue.lowerWrite_var.1 lowered
    rw [List.append_assoc] at start
    rw [Typed.LValue.assign]
    refine .bind (computes v _ stack w s hv start) (grows_writeVar _) ?_
    intro v w₁ t _ pushed
    obtain ⟨fits, there⟩ := pushed
    have slot := body.ready.concrete.vars _ _ found
    exact follows_writeVar body found hwrite (fits.of_takes takes slot) there
  | field receiver object found field =>
    obtain ⟨o, ho, address, haddress, v, hv, rfl⟩ := Typed.LValue.lowerWrite_field.1 lowered
    simp only [List.append_assoc] at start
    rw [Typed.LValue.assign]
    refine .bind (follows_target body receiver ho start) (fun o => .bind (grows_deref o) fun id =>
      .bind (Typed.Expr.grows_eval serves.grow _) (grows_writeField id _)) ?_
    intro o w₁ t _ pushed
    obtain ⟨fits, there⟩ := pushed
    rw [object] at fits haddress
    refine .bind (follows_fieldAddress body found field haddress fits there)
      (fun id => .bind (Typed.Expr.grows_eval serves.grow _) (grows_writeField id _)) ?_
    intro id w₁' t' _ passed
    obtain ⟨rfl, a, slot, there'⟩ := passed
    refine .bind (computes v _ _ w₁' t' hv there') (grows_writeField id _) ?_
    intro v w₂ t'' run pushed
    obtain ⟨fits', there''⟩ := pushed
    have grown := (Typed.Expr.grows_eval serves.grow _).ok run
    have concrete := (body.ready.concrete.classes _ _ found).fields _ _ field
    exact follows_writeField (slot.grow grown) (fits'.of_takes takes concrete) there''

/-! ## Statements -/

/-- Where control is after a statement with `code` behind it. -/
def After (S : Setting) (act : Activation) (bare : BareReturn) (code : Code) :
    Flow → World → State → Prop
  | .next, w, s => S.At act code [] w s
  | .leave, w, s => act.scope.inMethod = true ∧ ∃ rest, S.At act (bare.code ++ rest) [] w s
  | .ret v, w, s => act.scope.inMethod = true ∧ v.Fits w.classes act.scope.returns ∧
    ((∃ rest, S.At act (.ret :: rest) [w.word S.program v] w s) ∨
      bare = .self ∧ ∃ rest, S.At act (bare.code ++ rest) [] w s)

/-- Wherever some code of statements stands, control leaves it as it leaves the statements. -/
def Runs (S : Setting) (act : Activation) (bare : BareReturn) (x : Eval Flow) (c : Code) : Prop :=
  ∀ (code : Code) (w : World) (s : State), S.At act (c ++ code) [] w s →
    S.Follows (x w) (S.After act bare code) s

theorem runs_assign (serves : S.Serves call) (body : S.Body act.scope) {bare : BareReturn}
    {target : Typed.LValue} (writable : target.Writable act.scope) {value : Typed.Expr}
    (checked : value.Checked act.scope) (takes : target.ty.Takes value.ty) {c : Code}
    (lowered : target.lowerWrite act.scope value = .ok c) (ty : Ty) :
    S.Runs act bare ((Typed.Stmt.assign ty target value).eval S.program S.answers call) c := by
  intro code w s start
  rw [Typed.Stmt.eval]
  refine .bind (follows_assign serves body writable checked takes lowered start)
    (fun _ => .pure _) ?_
  intro _ w₁ t _ there
  exact .pure there

/-- The word of the value goes to the scratch local. -/
theorem runs_expr (serves : S.Serves call) (body : S.Body act.scope) {bare : BareReturn}
    {e : Typed.Expr} (checked : e.Checked act.scope) {c : Code}
    (lowered : e.lower act.scope = .ok c) (ty : Ty) :
    S.Runs act bare ((Typed.Stmt.expr ty e).eval S.program S.answers call)
      (c ++ [Instr.localSet scratch]) := by
  intro code w s start
  rw [List.append_assoc] at start
  rw [Typed.Stmt.eval]
  refine .bind (computes serves body checked c _ [] w s lowered start) (fun _ => .pure _) ?_
  intro v w₁ t _ pushed
  obtain ⟨fits, locals, store, rfl, holds, held⟩ := pushed
  exact .step (.localSet (.here (.pure ⟨_, store, rfl, holds.scratch body _, held⟩)))

theorem runs_return (serves : S.Serves call) (body : S.Body act.scope) {bare : BareReturn}
    (inside : act.scope.inMethod = true) {e : Typed.Expr} (checked : e.Checked act.scope)
    (takes : act.scope.returns.Takes e.ty) {c : Code}
    (lowered : Typed.lowerReturn act.scope bare (some e) = .ok c) (ty : Ty) :
    S.Runs act bare ((Typed.Stmt.ret ty (some e)).eval S.program S.answers call) c := by
  intro code w s start
  rw [Typed.Stmt.eval]
  rcases (Typed.lowerReturn_some inside).1 lowered with ⟨⟨self, ty, rfl⟩, rfl⟩ | ⟨-, c, hc, rfl⟩
  · cases checked
    have absent : Value.none.Fits w.classes .none := .absent rfl
    have fits := absent.of_takes takes (body.returns inside)
    exact .pure ⟨inside, fits, Or.inr ⟨self, code, start⟩⟩
  · rw [List.append_assoc] at start
    refine .bind (computes serves body checked c _ [] w s hc start) (fun _ => .pure _) ?_
    intro v w₁ t _ pushed
    obtain ⟨fits, there⟩ := pushed
    exact .pure ⟨inside, fits.of_takes takes (body.returns inside), Or.inl ⟨code, there⟩⟩

/-- The word of a truth value decides as the value does. -/
theorem runs_if (serves : S.Serves call) (body : S.Body act.scope) {bare : BareReturn}
    {e : Typed.Expr} (checked : e.Checked act.scope) (bool : e.ty = .bool) {c : Code}
    (lowered : e.lower act.scope = .ok c) {stmts : List Typed.Stmt}
    {alternative : Option Typed.Arm} {yes : Code} {no : Option Code}
    (first : S.Runs act bare (Typed.Stmt.evalAll S.program S.answers call stmts) yes)
    (second : S.Runs act bare (Typed.Arm.evalAlternative S.program S.answers call alternative)
      (no.getD [])) (ty : Ty) :
    S.Runs act bare
      ((Typed.Arm.mk ty (some e) stmts alternative).eval S.program S.answers call)
      (c ++ [Instr.branch yes no]) := by
  intro code w s start
  rw [List.append_assoc] at start
  rw [Typed.Arm.eval]
  refine .bind (computes serves body checked c _ [] w s lowered start) (fun v => ?_) ?_
  · split
    · exact Typed.Stmt.grows_evalAll serves.grow stmts
    · exact Typed.Arm.grows_evalAlternative serves.grow alternative
    · exact .throw _
  intro v w₁ t _ pushed
  obtain ⟨fits, locals, store, rfl, holds, held⟩ := pushed
  rw [bool] at fits
  obtain ⟨b, rfl⟩ := fits.eq_bool
  refine .step (.branch (.here ?_))
  cases b with
  | true => exact first code w₁ _ ⟨locals, store, rfl, holds, held⟩
  | false => exact second code w₁ _ ⟨locals, store, rfl, holds, held⟩

mutual

theorem runs_stmt (serves : S.Serves call) (body : S.Body act.scope) (bare : BareReturn)
    {st : Typed.Stmt} (h : st.Checked act.scope) {c : Code}
    (lowered : st.lower act.scope bare = .ok c) :
    S.Runs act bare (st.eval S.program S.answers call) c := by
  cases h with
  | assign target checked takes =>
    rw [Typed.Stmt.lower] at lowered
    exact runs_assign serves body target checked takes lowered _
  | expr checked =>
    obtain ⟨c, hc, rfl⟩ := Typed.Stmt.lower_expr.1 lowered
    exact runs_expr serves body checked hc _
  | bareRet inside =>
    rw [Typed.Stmt.lower, Typed.lowerReturn_none inside] at lowered
    subst lowered
    intro code w s start
    rw [Typed.Stmt.eval]
    exact .pure ⟨inside, code, start⟩
  | ret inside checked takes =>
    rw [Typed.Stmt.lower] at lowered
    exact runs_return serves body inside checked takes lowered _
  | branch checked =>
    rw [Typed.Stmt.lower] at lowered
    rw [Typed.Stmt.eval]
    exact runs_arm serves body bare checked lowered
  | pass =>
    cases lowered
    intro code w s start
    obtain ⟨locals, store, rfl, holds, held⟩ := start
    exact .step (.nop (.here (.pure ⟨locals, store, rfl, holds, held⟩)))

theorem runs_arm (serves : S.Serves call) (body : S.Body act.scope) (bare : BareReturn)
    {arm : Typed.Arm} (h : arm.Checked act.scope) {c : Code}
    (lowered : arm.lower act.scope bare = .ok c) :
    S.Runs act bare (arm.eval S.program S.answers call) c := by
  cases h with
  | @mk ty condition stmts alternative test other block merged =>
    cases condition with
    | none =>
      obtain ⟨last, -⟩ := Typed.armTy?_else merged
      cases Option.map_eq_none_iff.1 last
      rw [Typed.Arm.eval]
      exact runs_stmts serves body bare block (Typed.Arm.lower_else.1 lowered)
    | some e =>
      obtain ⟨yes, hyes, no, hno, c, hc, rfl⟩ := Typed.Arm.lower_if.1 lowered
      exact runs_if serves body (test e rfl).1 (test e rfl).2 hc
        (runs_stmts serves body bare block hyes)
        (runs_alternative serves body bare other hno) ty

theorem runs_alternative (serves : S.Serves call) (body : S.Body act.scope) (bare : BareReturn)
    {alternative : Option Typed.Arm} (h : ∀ arm ∈ alternative, arm.Checked act.scope)
    {no : Option Code}
    (lowered : Typed.Arm.lowerAlternative act.scope bare alternative = .ok no) :
    S.Runs act bare (Typed.Arm.evalAlternative S.program S.answers call alternative)
      (no.getD []) := by
  cases alternative with
  | none =>
    cases lowered
    intro code w s start
    exact .pure start
  | some arm =>
    obtain ⟨c, hc, rfl⟩ := Typed.Arm.lowerAlternative_some.1 lowered
    exact runs_arm serves body bare (h arm rfl) hc

theorem runs_stmts (serves : S.Serves call) (body : S.Body act.scope) (bare : BareReturn)
    {stmts : List Typed.Stmt} (h : ∀ st ∈ stmts, st.Checked act.scope) {c : Code}
    (lowered : Typed.Stmt.lowerAll act.scope bare stmts = .ok c) :
    S.Runs act bare (Typed.Stmt.evalAll S.program S.answers call stmts) c := by
  cases stmts with
  | nil =>
    cases lowered
    intro code w s start
    exact .pure start
  | cons st stmts =>
    obtain ⟨first, rest⟩ := List.forall_mem_cons.1 h
    obtain ⟨c, hc, cs, hcs, rfl⟩ := Typed.Stmt.lowerAll_cons.1 lowered
    have runs := runs_stmt serves body bare first hc
    have runsRest := runs_stmts serves body bare rest hcs
    intro code w s start
    rw [List.append_assoc] at start
    rw [Typed.Stmt.evalAll]
    refine .bind (runs (cs ++ code) w s start) (fun flow => ?_) ?_
    · split
      · exact Typed.Stmt.grows_evalAll serves.grow stmts
      · exact .pure _
    intro flow w₁ t _ after
    cases flow with
    | next => exact runsRest code w₁ t after
    | leave => exact .pure after
    | ret v => exact .pure after

end

end Setting
end ClassLang
