/-
Returns without a value.

A program is made explicit by writing `None` behind every bare return of its methods.  The generator
makes the same module of both spellings.  The checker does not: it compares with the declared type
what is written behind a return, and a bare return with nothing.
-/
import ClassLang.Proofs.Checker.Methods
import ClassLang.Proofs.Compile
import ClassLang.Proofs.Returns.Paths

namespace ClassLang

/-! ## Writing the absent value out -/

namespace Source

mutual

def Stmt.explicit : Stmt → Stmt
  | .ret none => .ret (some .absent)
  | .branch arm => .branch arm.explicit
  | s => s
termination_by structural s => s

def Arm.explicit : Arm → Arm
  | .mk condition body alternative =>
    .mk condition (Stmt.explicitAll body) (Arm.explicitAlternative alternative)
termination_by structural a => a

def Arm.explicitAlternative : Option Arm → Option Arm
  | none => none
  | some arm => some arm.explicit
termination_by structural a => a

def Stmt.explicitAll : List Stmt → List Stmt
  | [] => []
  | s :: rest => s.explicit :: Stmt.explicitAll rest
termination_by structural ss => ss

end

mutual

/-- Whether there is a return without a value somewhere within a statement. -/
def Stmt.returnsBare : Stmt → Bool
  | .ret none => true
  | .branch arm => arm.returnsBare
  | _ => false
termination_by structural s => s

def Arm.returnsBare : Arm → Bool
  | .mk _ body alternative => Stmt.anyReturnsBare body || Arm.alternativeReturnsBare alternative
termination_by structural a => a

def Arm.alternativeReturnsBare : Option Arm → Bool
  | none => false
  | some arm => arm.returnsBare
termination_by structural a => a

def Stmt.anyReturnsBare : List Stmt → Bool
  | [] => false
  | s :: rest => s.returnsBare || Stmt.anyReturnsBare rest
termination_by structural ss => ss

end

def Method.explicit (m : Method) : Method :=
  { m with statements := Stmt.explicitAll m.statements }

def Class.explicit (c : Class) : Class := { c with methods := c.methods.map (·.explicit) }

/-- Outside methods there are no returns. -/
def Program.explicit (p : Program) : Program := { p with classes := p.classes.map (·.explicit) }

end Source

namespace Typed

mutual

def Stmt.explicit : Stmt → Stmt
  | .ret ty none => .ret ty (some (.literal .none .none))
  | .branch ty arm => .branch ty arm.explicit
  | s => s
termination_by structural s => s

def Arm.explicit : Arm → Arm
  | .mk ty condition body alternative =>
    .mk ty condition (Stmt.explicitAll body) (Arm.explicitAlternative alternative)
termination_by structural a => a

def Arm.explicitAlternative : Option Arm → Option Arm
  | none => none
  | some arm => some arm.explicit
termination_by structural a => a

def Stmt.explicitAll : List Stmt → List Stmt
  | [] => []
  | s :: rest => s.explicit :: Stmt.explicitAll rest
termination_by structural ss => ss

end

def Method.explicit (m : Method) : Method :=
  { m with statements := Stmt.explicitAll m.statements }

def Class.explicit (c : Class) : Class := { c with methods := c.methods.map (·.explicit) }

def Program.explicit (p : Program) : Program := { p with classes := p.classes.map (·.explicit) }

/-! ## The types stay -/

theorem Stmt.ty_explicit (s : Stmt) : s.explicit.ty = s.ty := by
  cases s with
  | ret ty value => cases value <;> rfl
  | _ => rfl

theorem Arm.ty_explicit (arm : Arm) : arm.explicit.ty = arm.ty := by
  cases arm
  rfl

theorem Arm.ty_explicitAlternative (alternative : Option Arm) :
    (Arm.explicitAlternative alternative).map Arm.ty = alternative.map Arm.ty := by
  cases alternative with
  | none => rfl
  | some arm => exact congrArg some arm.ty_explicit

theorem bodyTy_explicitAll (stmts : List Stmt) : bodyTy (Stmt.explicitAll stmts) = bodyTy stmts := by
  suffices ∀ start, (Stmt.explicitAll stmts).foldl
      (fun ty stmt => if stmt.ty = .none then ty else stmt.ty) start =
        stmts.foldl (fun ty stmt => if stmt.ty = .none then ty else stmt.ty) start from this .none
  induction stmts with
  | nil => exact fun _ => rfl
  | cons s rest ih =>
    intro start
    rw [Stmt.explicitAll, List.foldl_cons, List.foldl_cons, Stmt.ty_explicit, ih]

/-! ## The code stays -/

section Lowering

variable (scope : Scope) (bare : BareReturn)

/-- A bare return hands back zero, which is the word of the absent value, or the object, and then
`return None` does as well. -/
theorem lowerReturn_absent :
    lowerReturn scope bare (some (.literal .none .none)) = lowerReturn scope bare none := by
  cases inside : scope.inMethod with
  | false =>
    unfold lowerReturn
    rw [inside]
    rfl
  | true =>
    unfold lowerReturn
    rw [inside]
    cases bare <;> rfl

mutual

theorem Stmt.lower_explicit (s : Stmt) : s.explicit.lower scope bare = s.lower scope bare := by
  cases s with
  | ret ty value =>
    cases value with
    | none => exact lowerReturn_absent scope bare
    | some e => rfl
  | branch ty arm => exact Arm.lower_explicit arm
  | _ => rfl

theorem Arm.lower_explicit (arm : Arm) : arm.explicit.lower scope bare = arm.lower scope bare := by
  cases arm with
  | mk ty condition body alternative =>
    rw [Arm.explicit, Arm.lower, Arm.lower, Stmt.lowerAll_explicit body,
      Arm.lowerAlternative_explicit alternative]
    cases alternative <;> rfl

theorem Arm.lowerAlternative_explicit (alternative : Option Arm) :
    Arm.lowerAlternative scope bare (Arm.explicitAlternative alternative) =
      Arm.lowerAlternative scope bare alternative := by
  cases alternative with
  | none => rfl
  | some arm =>
    rw [Arm.explicitAlternative, Arm.lowerAlternative, Arm.lowerAlternative,
      Arm.lower_explicit arm]

theorem Stmt.lowerAll_explicit (stmts : List Stmt) :
    Stmt.lowerAll scope bare (Stmt.explicitAll stmts) = Stmt.lowerAll scope bare stmts := by
  cases stmts with
  | nil => rfl
  | cons s rest =>
    rw [Stmt.explicitAll, Stmt.lowerAll, Stmt.lowerAll, Stmt.lower_explicit s,
      Stmt.lowerAll_explicit rest]

end

end Lowering

theorem Method.lower_explicit (scope : Scope) (cls : String) (m : Method) :
    m.explicit.lower scope cls = m.lower scope cls := by
  simp only [Method.lower, Method.explicit, Stmt.lowerAll_explicit]
  rfl

theorem Class.lower_explicit (scope : Scope) (c : Class) :
    c.explicit.lower scope = c.lower scope := by
  simp only [Class.lower, Class.explicit, List.mapM_map, Function.comp_def, Method.lower_explicit]
  rfl

theorem Program.lower_explicit (scope : Scope) (p : Program) :
    p.explicit.lower scope = p.lower scope := by
  simp only [Program.lower, Program.explicit, List.mapM_map, Function.comp_def, Class.lower_explicit]
  rfl

theorem Program.withLayouts_explicit (scope : Scope) (p : Program) :
    scope.withLayouts p.explicit = scope.withLayouts p := by
  rw [Scope.withLayouts, Program.explicit, List.foldlM_map]
  rfl

end Typed

/-! ## The checker tells the spellings apart -/

namespace Source

mutual

/-- Neither spelling returns a value. -/
theorem Stmt.returnsValue_explicit (s : Stmt) : s.explicit.returnsValue = s.returnsValue := by
  cases s with
  | ret value => cases value <;> rfl
  | branch arm => exact Arm.returnsValue_explicit arm
  | _ => rfl

theorem Arm.returnsValue_explicit (arm : Arm) : arm.explicit.returnsValue = arm.returnsValue := by
  cases arm with
  | mk condition body alternative =>
    rw [Arm.explicit, Arm.returnsValue, Arm.returnsValue, Stmt.anyReturnsValue_explicit body,
      Arm.alternativeReturnsValue_explicit alternative]

theorem Arm.alternativeReturnsValue_explicit (alternative : Option Arm) :
    Arm.alternativeReturnsValue (Arm.explicitAlternative alternative) =
      Arm.alternativeReturnsValue alternative := by
  cases alternative with
  | none => rfl
  | some arm => exact Arm.returnsValue_explicit arm

theorem Stmt.anyReturnsValue_explicit (stmts : List Stmt) :
    Stmt.anyReturnsValue (Stmt.explicitAll stmts) = Stmt.anyReturnsValue stmts := by
  cases stmts with
  | nil => rfl
  | cons s rest =>
    rw [Stmt.explicitAll, Stmt.anyReturnsValue, Stmt.anyReturnsValue, Stmt.returnsValue_explicit s,
      Stmt.anyReturnsValue_explicit rest]

end

section Statements

variable {scope : Scope}

/-- A statement that is explicit as it stands. -/
theorem check_iff_of_explicit {x : Except Error Typed.Stmt} {fits : Prop}
    (same : ∀ ts, x = .ok ts → ts.explicit = ts) {ts' : Typed.Stmt} :
    x = .ok ts' ↔ (false = true → fits) ∧ ∃ ts, x = .ok ts ∧ ts.explicit = ts' := by
  constructor
  · exact fun passed => ⟨Bool.noConfusion, ts', passed, same ts' passed⟩
  · rintro ⟨-, ts, passed, rfl⟩
    rw [same ts passed]
    exact passed

theorem checkReturn_absent {ts' : Typed.Stmt} :
    checkReturn scope (some .absent) = .ok ts' ↔
      scope.returns.Takes .none ∧ ∃ ts, checkReturn scope none = .ok ts ∧ ts.explicit = ts' := by
  simp only [checkReturn_some, checkReturn_none, Expr.absent, Expr.check_literal]
  constructor
  · rintro ⟨inside, _, rfl, takes, rfl⟩
    exact ⟨takes, _, ⟨inside, rfl⟩, rfl⟩
  · rintro ⟨takes, _, ⟨inside, rfl⟩, rfl⟩
    exact ⟨inside, _, rfl, takes, rfl⟩

mutual

/-- What passes with `None` written out is what passes without, where the enclosing method may hand
back the absent value. -/
theorem Stmt.check_explicit {s : Stmt} {ts' : Typed.Stmt} :
    s.explicit.check scope = .ok ts' ↔
      (s.returnsBare = true → scope.returns.Takes .none) ∧
        ∃ ts, s.check scope = .ok ts ∧ ts.explicit = ts' := by
  cases s with
  | assign lhs value =>
    refine check_iff_of_explicit fun ts passed => ?_
    obtain ⟨l, -, v, -, -, rfl⟩ := Stmt.check_assign.1 passed
    rfl
  | expr e =>
    refine check_iff_of_explicit fun ts passed => ?_
    obtain ⟨t, -, rfl⟩ := Stmt.check_expr.1 passed
    rfl
  | ret value =>
    cases value with
    | none =>
      simp only [Stmt.returnsBare, true_imp_iff]
      exact checkReturn_absent
    | some e =>
      refine check_iff_of_explicit fun ts passed => ?_
      obtain ⟨-, t, -, -, rfl⟩ := checkReturn_some.1 passed
      rfl
  | branch arm =>
    rw [Stmt.explicit, Stmt.check_branch, Stmt.returnsBare]
    constructor
    · rintro ⟨_, passed, rfl⟩
      obtain ⟨bare, a, ha, rfl⟩ := Arm.check_explicit.1 passed
      refine ⟨bare, _, Stmt.check_branch.2 ⟨a, ha, rfl⟩, ?_⟩
      rw [Typed.Stmt.explicit, Typed.Arm.ty_explicit]
    · rintro ⟨bare, _, passed, rfl⟩
      obtain ⟨a, ha, rfl⟩ := Stmt.check_branch.1 passed
      refine ⟨_, Arm.check_explicit.2 ⟨bare, a, ha, rfl⟩, ?_⟩
      rw [Typed.Stmt.explicit, Typed.Arm.ty_explicit]
  | pass =>
    refine check_iff_of_explicit fun ts passed => ?_
    cases passed
    rfl

theorem Arm.check_explicit {arm : Arm} {ta' : Typed.Arm} :
    arm.explicit.check scope = .ok ta' ↔
      (arm.returnsBare = true → scope.returns.Takes .none) ∧
        ∃ ta, arm.check scope = .ok ta ∧ ta.explicit = ta' := by
  cases arm with
  | mk condition body alternative =>
    rw [Arm.explicit, Arm.check_mk, Arm.returnsBare, Bool.or_eq_true, or_imp]
    constructor
    · rintro ⟨test, hc, _, otherPassed, _, blockPassed, ty, merged, rfl⟩
      obtain ⟨bareAlternative, other, ha, rfl⟩ := Arm.checkAlternative_explicit.1 otherPassed
      obtain ⟨bareBody, block, hb, rfl⟩ := Stmt.checkAll_explicit.1 blockPassed
      rw [Typed.Arm.ty_explicitAlternative, Typed.bodyTy_explicitAll] at merged
      exact ⟨⟨bareBody, bareAlternative⟩, _,
        Arm.check_mk.2 ⟨test, hc, other, ha, block, hb, ty, merged, rfl⟩, rfl⟩
    · rintro ⟨⟨bareBody, bareAlternative⟩, ta, passed, rfl⟩
      obtain ⟨test, hc, other, ha, block, hb, ty, merged, rfl⟩ := Arm.check_mk.1 passed
      refine ⟨test, hc, _, Arm.checkAlternative_explicit.2 ⟨bareAlternative, other, ha, rfl⟩, _,
        Stmt.checkAll_explicit.2 ⟨bareBody, block, hb, rfl⟩, ty, ?_, rfl⟩
      rw [Typed.Arm.ty_explicitAlternative, Typed.bodyTy_explicitAll]
      exact merged

theorem Arm.checkAlternative_explicit {alternative : Option Arm} {other' : Option Typed.Arm} :
    Arm.checkAlternative scope (Arm.explicitAlternative alternative) = .ok other' ↔
      (Arm.alternativeReturnsBare alternative = true → scope.returns.Takes .none) ∧
        ∃ other, Arm.checkAlternative scope alternative = .ok other ∧
          Typed.Arm.explicitAlternative other = other' := by
  cases alternative with
  | none =>
    constructor
    · intro passed
      cases passed
      exact ⟨Bool.noConfusion, none, rfl, rfl⟩
    · rintro ⟨-, _, passed, rfl⟩
      cases passed
      rfl
  | some arm =>
    rw [Arm.explicitAlternative, Arm.checkAlternative_some, Arm.alternativeReturnsBare]
    constructor
    · rintro ⟨_, passed, rfl⟩
      obtain ⟨bare, a, ha, rfl⟩ := Arm.check_explicit.1 passed
      exact ⟨bare, _, Arm.checkAlternative_some.2 ⟨a, ha, rfl⟩, rfl⟩
    · rintro ⟨bare, _, passed, rfl⟩
      obtain ⟨a, ha, rfl⟩ := Arm.checkAlternative_some.1 passed
      exact ⟨_, Arm.check_explicit.2 ⟨bare, a, ha, rfl⟩, rfl⟩

theorem Stmt.checkAll_explicit {stmts : List Stmt} {tss' : List Typed.Stmt} :
    Stmt.checkAll scope (Stmt.explicitAll stmts) = .ok tss' ↔
      (Stmt.anyReturnsBare stmts = true → scope.returns.Takes .none) ∧
        ∃ tss, Stmt.checkAll scope stmts = .ok tss ∧ Typed.Stmt.explicitAll tss = tss' := by
  cases stmts with
  | nil =>
    constructor
    · intro passed
      cases passed
      exact ⟨Bool.noConfusion, [], rfl, rfl⟩
    · rintro ⟨-, _, passed, rfl⟩
      cases passed
      rfl
  | cons s rest =>
    rw [Stmt.explicitAll, Stmt.checkAll_cons, Stmt.anyReturnsBare, Bool.or_eq_true, or_imp]
    constructor
    · rintro ⟨_, first, _, others, rfl⟩
      obtain ⟨bareFirst, t, ht, rfl⟩ := Stmt.check_explicit.1 first
      obtain ⟨bareRest, ts, hts, rfl⟩ := Stmt.checkAll_explicit.1 others
      exact ⟨⟨bareFirst, bareRest⟩, _, Stmt.checkAll_cons.2 ⟨t, ht, ts, hts, rfl⟩, rfl⟩
    · rintro ⟨⟨bareFirst, bareRest⟩, _, passed, rfl⟩
      obtain ⟨t, ht, ts, hts, rfl⟩ := Stmt.checkAll_cons.1 passed
      exact ⟨_, Stmt.check_explicit.2 ⟨bareFirst, t, ht, rfl⟩, _,
        Stmt.checkAll_explicit.2 ⟨bareRest, ts, hts, rfl⟩, rfl⟩

end

end Statements

section Programs

variable {scope : Scope}

/-- Where a method has a bare return, it may hand back the absent value. -/
def Method.BareFits (m : Method) : Prop :=
  Stmt.anyReturnsBare m.statements = true → m.ret.Takes .none

theorem Method.bareFits_iff {m : Method} :
    m.BareFits ↔ (m.ret = .int ∨ m.ret = .bool → Stmt.anyReturnsBare m.statements = false) := by
  unfold BareFits
  rw [Ty.takes_none_iff, ← not_or, ← Bool.not_eq_true]
  exact imp_not_comm

theorem Method.check_explicit {m : Method} {tm' : Typed.Method} :
    m.explicit.check scope = .ok tm' ↔
      m.BareFits ∧ ∃ tm, m.check scope = .ok tm ∧ tm.explicit = tm' := by
  rw [Method.check_eq_ok, Method.explicit, Stmt.anyReturnsValue_explicit]
  constructor
  · rintro ⟨inner, opens, quiet, _, passed, returns, rfl⟩
    obtain ⟨bare, statements, hs, rfl⟩ := Stmt.checkAll_explicit.1 passed
    rw [(Scope.enterMethod_enters opens.enters).returns] at bare
    rw [Typed.bodyTy_explicitAll] at returns ⊢
    exact ⟨bare, _, Method.check_eq_ok.2 ⟨inner, opens, quiet, statements, hs, returns, rfl⟩, rfl⟩
  · rintro ⟨bare, _, passed, rfl⟩
    obtain ⟨inner, opens, quiet, statements, hs, returns, rfl⟩ := Method.check_eq_ok.1 passed
    have fits : Stmt.anyReturnsBare m.statements = true → inner.returns.Takes .none := by
      rw [(Scope.enterMethod_enters opens.enters).returns]
      exact bare
    refine ⟨inner, opens, quiet, _, Stmt.checkAll_explicit.2 ⟨fits, statements, hs, rfl⟩, ?_⟩
    rw [Typed.bodyTy_explicitAll]
    exact ⟨returns, rfl⟩

/-- Callers see nothing of bodies. -/
theorem Method.explicit_keepsSignature : Method.KeepsSignature Method.explicit :=
  ⟨fun _ => rfl, fun _ _ => rfl⟩

theorem Program.check_explicit {p : Program} {tq : Typed.Program} :
    p.explicit.check = .ok (tq, scope) ↔
      (∀ c ∈ p.classes, ∀ m ∈ c.methods, m.BareFits) ∧
        ∃ tp, p.check = .ok (tp, scope) ∧ tp.explicit = tq :=
  Program.check_mapMethods Method.explicit_keepsSignature fun _ => Method.check_explicit

end Programs

/-- A program passes with `None` written out exactly if it passes without and has no bare return in
a method that is declared to return a number or a truth value.  Its module is the same then. -/
theorem Program.explicit_returns (p : Program) :
    ((∃ r, p.explicit.check = .ok r) ↔
      (∃ r, p.check = .ok r) ∧ ∀ c ∈ p.classes, ∀ m ∈ c.methods, m.ret = .int ∨ m.ret = .bool →
        Stmt.anyReturnsBare m.statements = false) ∧
    ∀ r, p.explicit.check = .ok r → ∃ m, p.toModule = .ok m ∧ p.explicit.toModule = .ok m := by
  simp only [← Method.bareFits_iff]
  refine ⟨⟨?_, ?_⟩, ?_⟩
  · rintro ⟨⟨tq, scope⟩, passed⟩
    obtain ⟨bare, tp, accepted, -⟩ := Program.check_explicit.1 passed
    exact ⟨⟨_, accepted⟩, bare⟩
  · rintro ⟨⟨⟨tp, scope⟩, accepted⟩, bare⟩
    exact ⟨_, Program.check_explicit.2 ⟨bare, tp, accepted, rfl⟩⟩
  · rintro ⟨tq, scope⟩ passed
    obtain ⟨-, tp, accepted, rfl⟩ := Program.check_explicit.1 passed
    obtain ⟨laid, pass, -, checked, lays⟩ := Scope.withLayouts_ok (check_checked accepted)
    obtain ⟨m, g, run⟩ := checked.lower_ok lays .zero
    have pass' : scope.withLayouts tp.explicit = .ok laid := by
      rw [Typed.Program.withLayouts_explicit]
      exact pass
    have run' : (tp.explicit.lower laid).run .zero = .ok m g := by
      rw [Typed.Program.lower_explicit]
      exact run
    exact ⟨m, toModule_of_run accepted pass run, toModule_of_run passed pass' run'⟩

/-- A method that is declared to return a number, and on one path returns nothing. -/
def Program.escape : Program where
  globals := []
  classes := [
    { name := "C"
      fields := []
      methods := [
        { name := "m"
          params := [⟨"self", .object "C"⟩, ⟨"b", .bool⟩]
          ret := .int
          definitions := []
          statements := [.ifThen (.id "b") [.ret none], .give (.int 1)] }] }]
  body := []

theorem Program.escape_passes :
    (∃ c ∈ escape.classes, ∃ m ∈ c.methods, m.ret = .int ∧
      ∃ path ∈ Stmt.pathsOf m.statements, path.getLast? = some (.ret none)) ∧
    (∃ r, escape.check = .ok r) ∧
    escape.explicit.check = .error (.returnTypeMismatch .int .none) ∧
    ¬((∃ r, escape.check = .ok r) ↔ ∃ r, escape.explicit.check = .ok r) := by
  have accepted : ∃ r, escape.check = .ok r := ⟨_, rfl⟩
  have refused : escape.explicit.check = .error (.returnTypeMismatch .int .none) := rfl
  refine ⟨⟨_, .head _, _, .head _, rfl, _, .head _, rfl⟩, accepted, refused, fun same => ?_⟩
  obtain ⟨r, passed⟩ := same.1 accepted
  rw [refused] at passed
  cases passed

end Source
end ClassLang
