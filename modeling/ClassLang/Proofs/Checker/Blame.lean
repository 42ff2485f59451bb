/-
Whose mistake the checker reports.

Signatures go into the scope as they are declared, and the types in them are looked at only when
the turn of their class comes.  A body that is checked before may meet a value of type `any`, and
then the checker reports a defect of its own for what is a mistake of the program.
-/
import ClassLang.Proofs.Checker.MeetsAny
import Mathlib.Tactic.ByContra

namespace ClassLang

theorem Error.family_ne_type {e : Error} : e.family ≠ .type ↔ ∃ d, e = .internal d := by
  constructor
  · intro h
    cases e with
    | internal d => exact ⟨d, rfl⟩
    | _ => exact absurd rfl h
  · rintro ⟨d, rfl⟩
    exact nofun

/-! ## Where nothing has type `any`, nothing meets it -/

namespace Source

section

variable {scope : Scope} (concrete : scope.Concrete)

include concrete

theorem Expr.ty_ne_any_of_check {e : Expr} {te : Typed.Expr} (h : e.check scope = .ok te) :
    te.ty ≠ .any :=
  (check_checked h).ty_ne_any concrete

theorem Expr.MeetsAny.absurd_of_concrete {e : Expr} (h : e.MeetsAny scope) : False := by
  induction h with
  | unary _ ih | left _ ih | right _ _ ih | paren _ ih | builtin _ _ _ _ ih | receiver _ ih
  | method _ _ _ ih | field _ ih => exact ih
  | operand left right any =>
    rcases any with any | any
    · exact ty_ne_any_of_check concrete left any
    · exact ty_ne_any_of_check concrete right any
  | builtinArg _ _ _ checked any => exact ty_ne_any_of_check concrete checked any
  | @methodArg _ _ _ _ _ _ as _ _ _ passed _ _ any _ =>
    have mem : Ty.any ∈ as.map Typed.Expr.ty := by
      rw [any]
      exact List.mem_append_right _ List.mem_cons_self
    obtain ⟨te, hte, eq⟩ := List.mem_map.1 mem
    exact (checkAll_checked passed te hte).ty_ne_any concrete eq

mutual

theorem Stmt.MeetsAny.absurd_of_concrete {s : Stmt} (h : s.MeetsAny scope) : False := by
  cases h with
  | value _ inner | expr inner | ret _ inner => exact inner.absurd_of_concrete concrete
  | assigned _ checked any | returned _ checked any =>
    exact Expr.ty_ne_any_of_check concrete checked any
  | branch inner => exact Arm.MeetsAny.absurd_of_concrete inner

theorem Arm.MeetsAny.absurd_of_concrete {arm : Arm} (h : arm.MeetsAny scope) : False := by
  cases h with
  | condition inner => exact inner.absurd_of_concrete concrete
  | alternative _ inner => exact Arm.MeetsAny.absurd_of_concrete inner
  | @body _ before s after _ _ _ _ _ _ inner =>
    have mem : s ∈ before ++ s :: after := List.mem_append_right _ List.mem_cons_self
    exact Stmt.MeetsAny.absurd_of_concrete inner

end

end

end Source

/-! ## The type of a body is that of a returned value -/

namespace Typed

theorem armTy?_ne_any {hasCondition : Bool} {alternative : Option Ty} {body ty : Ty}
    (merged : armTy? hasCondition alternative body = some ty) (h : body ≠ .any) : ty ≠ .any := by
  rcases armTy?_cases merged with rfl | rfl
  · exact Ty.noConfusion
  · exact h

theorem bodyTy_ne_any {stmts : List Stmt} (h : ∀ s ∈ stmts, s.ty ≠ .any) : bodyTy stmts ≠ .any := by
  rcases bodyTy_cases stmts with absent | ⟨s, mem, eq⟩
  · rw [absent]
    exact Ty.noConfusion
  · exact eq ▸ h s mem

mutual

theorem Stmt.Checked.ty_ne_any {scope : Scope} {s : Stmt} (h : s.Checked scope) : s.ty ≠ .any := by
  cases h with
  | ret _ _ takes => exact takes.value_ne_any
  | branch checked => exact Arm.Checked.ty_ne_any checked
  | _ => exact Ty.noConfusion

theorem Arm.Checked.ty_ne_any {scope : Scope} {arm : Arm} (h : arm.Checked scope) :
    arm.ty ≠ .any := by
  cases h with
  | mk _ _ block merged =>
    exact armTy?_ne_any merged (bodyTy_ne_any fun s mem => Stmt.Checked.ty_ne_any (block s mem))

end

end Typed

namespace Source

/-! ## Methods, classes and programs -/

/-- The method itself is declared properly, and its body meets `any`. -/
structure Method.MeetsAny (scope : Scope) (m : Method) (inner : Scope) : Prop where
  params : ∀ p ∈ m.params, scope.Declares p.ty
  ret : scope.Declares m.ret
  definitions : ∀ v ∈ m.definitions, v.Checked scope
  enters : scope.enterMethod m.ret m.params (m.definitions.map fun v => ⟨v.name, v.ty⟩) = .ok inner
  plain : (m.name = constructorName && Stmt.anyReturnsValue m.statements) = false
  meets : ∃ before s after, m.statements = before ++ s :: after ∧
    (∀ b ∈ before, ∃ tb, Stmt.check inner b = .ok tb) ∧ s.MeetsAny inner

/-- The fields and some methods of the class pass, and the next method meets `any`. -/
structure Class.MeetsAny (scope : Scope) (c : Class) : Prop where
  fields : ∀ f ∈ c.fields, f.Checked (scope.enterClass c.name)
  meets : ∃ before m after inner, c.methods = before ++ m :: after ∧
    (∀ b ∈ before, ∃ tb, Method.check (scope.enterClass c.name) b = .ok tb) ∧
      m.MeetsAny (scope.enterClass c.name) inner

/-- All names and some classes of the program pass, and the next class meets `any`. -/
structure Program.MeetsAny (p : Program) (scope : Scope) : Prop where
  names : p.scope = .ok scope
  globals : ∀ v ∈ p.globals, v.Checked scope
  meets : ∃ before c after, p.classes = before ++ c :: after ∧
    (∀ b ∈ before, ∃ tb, Class.check scope b = .ok tb) ∧ c.MeetsAny scope

/-- A field or a result of the class is declared with the type that no declaration may use. -/
def Class.DeclaresAny (c : Class) : Prop :=
  (∃ f ∈ c.fields, f.ty = .any) ∨ ∃ m ∈ c.methods, m.name ≠ constructorName ∧ m.ret = .any

end Source

theorem VarDef.check_not_breaks {scope : Scope} {v : VarDef} : ¬Breaks (v.check scope) := by
  rw [VarDef.check, breaks_bind]
  rintro (broken | ⟨_, _, broken⟩)
  · exact (scope.checkDeclared_failsNaming v.ty).not_breaks broken
  · rw [not_breaks_bind_pure, Ty.require_breaks rfl] at broken
    exact v.value.ty_ne_any broken

theorem VarDef.mapM_check_not_breaks {scope : Scope} {vs : List VarDef} :
    ¬Breaks (vs.mapM (·.check scope)) := by
  rw [breaks_mapM]
  rintro ⟨_, v, _, _, _, broken⟩
  exact VarDef.check_not_breaks broken

namespace Source

theorem Method.returnError_family {m : Method} {body : Ty} :
    (m.returnError body).family = .type := by
  unfold returnError
  split
  · rfl
  · split <;> rfl

theorem Method.breaks_iff {scope : Scope} {m : Method} :
    Breaks (m.check scope) ↔ ∃ inner, m.MeetsAny scope inner := by
  unfold Method.check
  constructor
  · intro broken
    rw [breaks_bind] at broken
    rcases broken with broken | ⟨_, params, broken⟩
    · have naming := FailsWith.forM (fun p : Param => scope.checkDeclared_failsNaming p.ty) m.params
      exact absurd broken (FailsNaming.not_breaks naming)
    rw [breaks_bind] at broken
    rcases broken with broken | ⟨_, ret, broken⟩
    · exact absurd broken (scope.checkDeclared_failsNaming m.ret).not_breaks
    rw [breaks_bind] at broken
    rcases broken with broken | ⟨definitions, hdefs, broken⟩
    · exact absurd broken VarDef.mapM_check_not_breaks
    rw [breaks_bind] at broken
    rcases broken with broken | ⟨inner, enters, broken⟩
    · exact absurd broken (scope.enterMethod_failsNaming _ _ _).not_breaks
    obtain ⟨rfl, defsChecked⟩ := VarDef.mapM_check_eq_ok.1 hdefs
    simp only [forM_eq_ok, Scope.checkDeclared_eq_ok] at params ret
    split at broken
    · rw [breaks_bind] at broken
      rcases broken with broken | ⟨_, impossible, _⟩
      · exact absurd broken (not_breaks_throw rfl)
      · cases impossible
    · next plain =>
      rw [breaks_bind] at broken
      rcases broken with broken | ⟨statements, hs, broken⟩
      · exact ⟨inner, params, ret, defsChecked, enters, Bool.eq_false_iff.2 plain,
          Stmt.breaks_checkAll.1 broken⟩
      · rw [not_breaks_bind_pure, Ty.require_breaks Method.returnError_family] at broken
        have checked := Stmt.checkAll_checked hs
        exact absurd broken (Typed.bodyTy_ne_any fun s mem => (checked s mem).ty_ne_any)
  · rintro ⟨inner, meets⟩
    rw [breaks_bind]
    refine Or.inr ⟨(), forM_eq_ok.2 fun p mem => ?_, ?_⟩
    · exact Scope.checkDeclared_eq_ok.2 (meets.params p mem)
    rw [breaks_bind]
    refine Or.inr ⟨(), Scope.checkDeclared_eq_ok.2 meets.ret, ?_⟩
    rw [breaks_bind]
    refine Or.inr ⟨m.definitions, VarDef.mapM_check_eq_ok.2 ⟨rfl, meets.definitions⟩, ?_⟩
    rw [breaks_bind]
    refine Or.inr ⟨inner, meets.enters, ?_⟩
    rw [meets.plain]
    simp only [Bool.false_eq_true, if_false]
    rw [breaks_bind]
    exact Or.inl (Stmt.breaks_checkAll.2 meets.meets)

theorem Class.breaks_iff {scope : Scope} {c : Class} :
    Breaks (c.check scope) ↔ c.MeetsAny scope := by
  rw [Class.check, breaks_bind, or_iff_right VarDef.mapM_check_not_breaks]
  simp only [not_breaks_bind_pure, breaks_mapM, VarDef.mapM_check_eq_ok, Method.breaks_iff]
  constructor
  · rintro ⟨_, ⟨-, fields⟩, before, m, after, split, passed, inner, meets⟩
    exact ⟨fields, before, m, after, inner, split, passed, meets⟩
  · rintro ⟨fields, before, m, after, inner, split, passed, meets⟩
    exact ⟨_, ⟨rfl, fields⟩, before, m, after, split, passed, inner, meets⟩

/-! ## Which declarations are behind it -/

theorem Method.signature_ret {cls : String} {m : Method} {signature : Signature}
    (h : m.signature cls = .ok signature) :
    signature.ret = .object cls ∨ m.name ≠ constructorName ∧ signature.ret = m.ret := by
  obtain ⟨-, rfl⟩ := signature_eq_ok.1 h
  unfold shown
  split
  · exact Or.inl rfl
  · next ordinary => exact Or.inr ⟨ordinary, rfl⟩

theorem Class.Shows.concrete {c : Class} {info : ClassInfo} (shows : c.Shows info)
    (h : ¬c.DeclaresAny) : info.Concrete where
  fields := fun field ty found any => by
    obtain ⟨v, mem, -, rfl⟩ := shows.fields.only field ty found
    exact h (Or.inl ⟨v, mem, any⟩)
  methods := fun method signature found any => by
    obtain ⟨m, mem, -, shown⟩ := shows.methods.only method signature found
    rcases Method.signature_ret shown with ret | ⟨ordinary, ret⟩
    · cases ret.symm.trans any
    · exact h (Or.inr ⟨m, mem, ordinary, ret.symm.trans any⟩)

theorem Program.Shows.concrete {p : Program} {scope : Scope} (shows : p.Shows scope)
    (globals : ∀ v ∈ p.globals, v.Checked scope) (h : ∀ c ∈ p.classes, ¬c.DeclaresAny) :
    scope.Concrete where
  functions := shows.functions
  vars := fun name binding found => by
    obtain ⟨v, mem, -, rfl⟩ := shows.vars.only name binding found
    exact (globals v mem).declared.1
  classes := fun cls info found => by
    obtain ⟨c, mem, -, shown⟩ := shows.classes.only cls info found
    exact shown.concrete (h c mem)

/-- A class that has passed declares nothing so. -/
theorem Class.not_declaresAny_of_check {scope : Scope} {c : Class} {tc : Typed.Class}
    (h : c.check scope = .ok tc) : ¬c.DeclaresAny := by
  simp only [Class.check, bind_eq_ok, pure_eq_ok, VarDef.mapM_check_eq_ok] at h
  obtain ⟨_, ⟨-, fields⟩, methods, hmethods, -⟩ := h
  rintro (⟨f, mem, any⟩ | ⟨m, mem, -, any⟩)
  · exact (fields f mem).declared.1 any
  · obtain ⟨tm, -, hm⟩ := exists_right_of_forall₂ (mapM_eq_ok.1 hmethods) mem
    obtain ⟨⟨-, -, ret, -⟩, inner, checked⟩ := Method.check_checked hm
    exact checked.ret.1 (ret.trans any)

theorem Method.MeetsAny.absurd_of_concrete {scope inner : Scope} {m : Method}
    (h : m.MeetsAny scope inner) (concrete : scope.Concrete) : False := by
  obtain ⟨before, s, after, -, -, meets⟩ := h.meets
  refine meets.absurd_of_concrete (concrete.enterMethod (Scope.enterMethod_enters h.enters) ?_)
  intro p mem
  rcases List.mem_append.1 mem with mem | mem
  · exact (h.params p mem).1
  · obtain ⟨v, hv, rfl⟩ := List.mem_map.1 mem
    exact (h.definitions v hv).declared.1

theorem Class.MeetsAny.absurd_of_concrete {scope : Scope} {c : Class} (h : c.MeetsAny scope)
    (concrete : scope.Concrete) : False := by
  obtain ⟨before, m, after, inner, -, -, meets⟩ := h.meets
  exact meets.absurd_of_concrete (concrete.enterClass c.name)

theorem Program.MeetsAny.declaresAny {p : Program} {scope : Scope} (h : p.MeetsAny scope) :
    ∃ c ∈ p.classes, c.DeclaresAny := by
  by_contra none
  have concrete := (scope_shows h.names).concrete h.globals fun c mem any => none ⟨c, mem, any⟩
  obtain ⟨before, c, after, -, -, meets⟩ := h.meets
  exact meets.absurd_of_concrete concrete

/-- By the turn of the outermost statements every declaration has been looked at. -/
theorem Program.body_not_breaks {p : Program} {scope : Scope} {classes : List Typed.Class}
    (names : p.scope = .ok scope) (globals : ∀ v ∈ p.globals, v.Checked scope)
    (passed : p.classes.mapM (·.check scope) = .ok classes) :
    ¬Breaks (Stmt.checkAll scope p.body) := by
  intro broken
  obtain ⟨before, s, after, -, -, meets⟩ := Stmt.breaks_checkAll.1 broken
  refine meets.absurd_of_concrete ((scope_shows names).concrete globals fun c mem => ?_)
  obtain ⟨tc, -, hc⟩ := exists_right_of_forall₂ (mapM_eq_ok.1 passed) mem
  exact Class.not_declaresAny_of_check hc

theorem Program.breaks_iff {p : Program} : Breaks p.check ↔ ∃ scope, p.MeetsAny scope := by
  rw [Program.check, breaks_bind, or_iff_right p.scope_failsNaming.not_breaks]
  refine exists_congr fun scope => ?_
  constructor
  · rintro ⟨names, broken⟩
    rw [breaks_bind, or_iff_right VarDef.mapM_check_not_breaks] at broken
    obtain ⟨_, hglobals, broken⟩ := broken
    obtain ⟨rfl, globals⟩ := VarDef.mapM_check_eq_ok.1 hglobals
    rw [breaks_bind] at broken
    rcases broken with broken | ⟨classes, passed, broken⟩
    · rw [breaks_mapM] at broken
      obtain ⟨before, c, after, split, passed, broken⟩ := broken
      exact ⟨names, globals, before, c, after, split, passed, Class.breaks_iff.1 broken⟩
    · rw [not_breaks_bind_pure] at broken
      exact absurd broken (body_not_breaks names globals passed)
  · rintro ⟨names, globals, before, c, after, split, passed, meets⟩
    refine ⟨names, ?_⟩
    rw [breaks_bind]
    refine Or.inr ⟨p.globals, VarDef.mapM_check_eq_ok.2 ⟨rfl, globals⟩, ?_⟩
    rw [breaks_bind, breaks_mapM]
    exact Or.inl ⟨before, c, after, split, passed, Class.breaks_iff.2 meets⟩

/-- The checker takes the blame for a program exactly if the program meets `any`, for which a field
or a result must be declared so.  Of every other program that it refuses, it blames the program. -/
theorem Program.check_blames_program_iff (p : Program) :
    ((∀ e, p.check = .error e → e.family = .type) ↔ ¬∃ scope, p.MeetsAny scope) ∧
      ((∃ scope, p.MeetsAny scope) → ∃ c ∈ p.classes, c.DeclaresAny) := by
  refine ⟨?_, fun ⟨scope, meets⟩ => meets.declaresAny⟩
  rw [← Program.breaks_iff]
  constructor
  · rintro blames ⟨d, broken⟩
    cases blames _ broken
  · intro sound e refused
    refine Decidable.byContradiction fun other => sound ?_
    obtain ⟨d, rfl⟩ := Error.family_ne_type.1 other
    exact ⟨d, refused⟩

/-- A class that is used before its own turn. -/
def Program.early : Program where
  globals := []
  classes := [
    { name := "A"
      fields := []
      methods := [
        { name := "foo"
          params := [⟨"self", .object "A"⟩, ⟨"b", .object "B"⟩]
          ret := .int
          definitions := []
          statements := [.give (.methodCall (.id "b") "bar" [])] }] },
    { name := "B"
      fields := []
      methods := [
        { name := "bar"
          params := [⟨"self", .object "B"⟩]
          ret := .any
          definitions := []
          statements := [] }] }]
  body := []

theorem Program.check_early_blames_checker :
    early.check = .error (.internal .anyAssigned) ∧
      ¬∀ (p : Program) e, p.check = .error e → e.family = .type := by
  have refused : early.check = .error (.internal .anyAssigned) := rfl
  exact ⟨refused, fun blames => nomatch blames early _ refused⟩

end Source
end ClassLang
