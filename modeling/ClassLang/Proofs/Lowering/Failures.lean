/-
Whose mistake a failure of the generator is.

Typed trees need not come from the checker.  Where a tree breaks what the checker guarantees, the
generator blames itself, with one exception: it enters methods as the checker does, so a method that
declares a name twice is refused in the words that the checker has for programs.
-/
import ClassLang.Proofs.Checker.Repeats
import ClassLang.Proofs.Lowering.Reuse

namespace ClassLang

/-- The computation fails, if at all, with an error of the compiler's own making. -/
def FailsInternally {α : Type} (x : Except Error α) : Prop :=
  ∀ e, x = .error e → e.family = .internal

section FailsInternally

variable {α β : Type}

theorem failsInternally_ok (a : α) : FailsInternally (.ok a) := FailsWith.ok a

theorem failsInternally_pure (a : α) : FailsInternally (pure a) := FailsWith.pure a

theorem failsInternally_error (defect : Defect) :
    FailsInternally (.error (.internal defect) : Except Error α) := FailsWith.error rfl

theorem FailsInternally.bind {x : Except Error α} {f : α → Except Error β}
    (first : FailsInternally x) (next : ∀ a, FailsInternally (f a)) :
    FailsInternally (x >>= f) :=
  FailsWith.bind first next

theorem failsInternally_ite {c : Prop} [Decidable c] {x y : Except Error α}
    (yes : FailsInternally x) (no : FailsInternally y) :
    FailsInternally (if c then x else y) :=
  FailsWith.ite yes no

theorem failsInternally_foldlM {f : β → α → Except Error β} (each : ∀ b a, FailsInternally (f b a))
    (l : List α) (b : β) : FailsInternally (l.foldlM f b) :=
  FailsWith.foldlM each l b

/-- The computation fails with an error that is the program's fault. -/
def Refuses (x : Except Error α) (e : Error) : Prop := x = .error e ∧ e.family = .type

theorem FailsInternally.not_refuses {x : Except Error α} (h : FailsInternally x) (e : Error) :
    ¬Refuses x e := by
  rintro ⟨failed, kind⟩
  rw [h e failed] at kind
  cases kind

theorem refuses_bind {x : Except Error α} {f : α → Except Error β} {e : Error} :
    Refuses (x >>= f) e ↔ Refuses x e ∨ ∃ a, x = .ok a ∧ Refuses (f a) e := by
  unfold Refuses
  rw [bind_eq_error]
  constructor
  · rintro ⟨failed | ⟨a, ha, failed⟩, kind⟩
    · exact Or.inl ⟨failed, kind⟩
    · exact Or.inr ⟨a, ha, failed, kind⟩
  · rintro (⟨failed, kind⟩ | ⟨a, ha, failed, kind⟩)
    · exact ⟨Or.inl failed, kind⟩
    · exact ⟨Or.inr ⟨a, ha, failed⟩, kind⟩

theorem FailsInternally.refuses_bind {x : Except Error α} (first : FailsInternally x)
    {f : α → Except Error β} {e : Error} :
    Refuses (x >>= f) e ↔ ∃ a, x = .ok a ∧ Refuses (f a) e := by
  rw [ClassLang.refuses_bind]
  exact or_iff_right (first.not_refuses e)

theorem refuses_bind_of_failsInternally {x : Except Error α} {f : α → Except Error β}
    (next : ∀ a, FailsInternally (f a)) {e : Error} : Refuses (x >>= f) e ↔ Refuses x e := by
  rw [refuses_bind]
  exact or_iff_left fun ⟨a, _, refused⟩ => (next a).not_refuses e refused

theorem refuses_mapM {f : α → Except Error β} {l : List α} {e : Error} :
    Refuses (l.mapM f) e ↔ ∃ before a after done, l = before ++ a :: after ∧
      before.mapM f = .ok done ∧ Refuses (f a) e := by
  unfold Refuses
  rw [mapM_eq_error]
  constructor
  · rintro ⟨⟨before, a, after, done, all, passed, failed⟩, kind⟩
    exact ⟨before, a, after, done, all, passed, failed, kind⟩
  · rintro ⟨before, a, after, done, all, passed, failed, kind⟩
    exact ⟨⟨before, a, after, done, all, passed, failed⟩, kind⟩

end FailsInternally

/-! ## Names, members and built-ins -/

namespace Scope

variable (scope : Scope)

theorem isGlobal_failsInternally (name : String) : FailsInternally (scope.isGlobal name) := by
  unfold isGlobal
  refine failsInternally_ite ?_ (failsInternally_ok true)
  cases scope.vars.get? name with
  | none => exact failsInternally_error _
  | some binding => exact failsInternally_ok _

theorem readVar_failsInternally (name : String) : FailsInternally (scope.readVar name) :=
  (scope.isGlobal_failsInternally name).bind fun _ =>
    failsInternally_ite (failsInternally_pure _) (failsInternally_pure _)

theorem writeVar_failsInternally (name : String) : FailsInternally (scope.writeVar name) :=
  (scope.isGlobal_failsInternally name).bind fun _ =>
    failsInternally_ite (failsInternally_pure _) (failsInternally_pure _)

theorem fieldAddress_failsInternally (obj : Ty) (field : String) :
    FailsInternally (scope.fieldAddress obj field) := by
  unfold fieldAddress
  split
  · split
    · split
      · exact failsInternally_pure _
      · exact failsInternally_error _
    · exact failsInternally_error _
  · exact failsInternally_error _

theorem setLayout_failsInternally (c : Typed.Class) : FailsInternally (scope.setLayout c) := by
  unfold setLayout
  split
  · exact failsInternally_error _
  · exact failsInternally_ok _

end Scope

theorem callBuiltin_failsInternally (name : String) (args : List Ty) :
    FailsInternally (callBuiltin name args) := by
  -- which import is called is settled first, and may itself fail
  unfold callBuiltin
  refine failsInternally_ite ?_ ?_
  · split
    · refine (failsInternally_pure _).bind fun target => ?_
      beta_reduce
      split
      · exact failsInternally_pure _
      · exact failsInternally_error _
    · exact failsInternally_error _
  · refine (failsInternally_pure _).bind fun target => ?_
    beta_reduce
    split
    · exact failsInternally_pure _
    · exact failsInternally_error _

namespace Typed

/-! ## Bodies -/

mutual

theorem Expr.lower_failsInternally (scope : Scope) (e : Expr) :
    FailsInternally (e.lower scope) := by
  rw [Expr.lower.eq_def]
  refine failsInternally_ite (failsInternally_error _) ?_
  cases e with
  | literal ty value => exact failsInternally_ok _
  | id ty name =>
    exact (scope.readVar_failsInternally name).bind fun _ => failsInternally_pure _
  | unary ty op arg =>
    exact (Expr.lower_failsInternally scope arg).bind fun _ => failsInternally_pure _
  | binary ty op lhs rhs =>
    exact (Expr.lower_failsInternally scope lhs).bind fun _ =>
      (Expr.lower_failsInternally scope rhs).bind fun _ => failsInternally_pure _
  | paren ty arg => exact Expr.lower_failsInternally scope arg
  | call ty name args =>
    exact (Expr.lowerAll_failsInternally scope args).bind fun _ =>
      (callBuiltin_failsInternally _ _).bind fun _ => failsInternally_pure _
  | construct ty cls => exact failsInternally_ok _
  | methodCall ty obj name args =>
    dsimp only
    split
    · exact (Expr.lower_failsInternally scope obj).bind fun _ =>
        (Expr.lowerAll_failsInternally scope args).bind fun _ => failsInternally_pure _
    · exact failsInternally_error _
  | field ty obj name =>
    exact (Expr.lower_failsInternally scope obj).bind fun _ =>
      (scope.fieldAddress_failsInternally _ _).bind fun _ => failsInternally_pure _
termination_by structural e

theorem Expr.lowerAll_failsInternally (scope : Scope) (es : List Expr) :
    FailsInternally (Expr.lowerAll scope es) := by
  cases es with
  | nil => exact failsInternally_ok _
  | cons e rest =>
    exact (Expr.lower_failsInternally scope e).bind fun _ =>
      (Expr.lowerAll_failsInternally scope rest).bind fun _ => failsInternally_pure _
termination_by structural es

end

theorem LValue.lowerRead_failsInternally (scope : Scope) (target : LValue) :
    FailsInternally (target.lowerRead scope) := by
  induction target with
  | var ty name => exact (scope.readVar_failsInternally name).bind fun _ => failsInternally_pure _
  | field ty obj name ih =>
    exact ih.bind fun _ =>
      (scope.fieldAddress_failsInternally _ _).bind fun _ => failsInternally_pure _

theorem LValue.lowerWrite_failsInternally (scope : Scope) (value : Expr) (target : LValue) :
    FailsInternally (target.lowerWrite scope value) := by
  cases target with
  | var ty name =>
    exact (value.lower_failsInternally scope).bind fun _ =>
      (scope.writeVar_failsInternally name).bind fun _ => failsInternally_pure _
  | field ty obj name =>
    exact (obj.lowerRead_failsInternally scope).bind fun _ =>
      (scope.fieldAddress_failsInternally _ _).bind fun _ =>
        (value.lower_failsInternally scope).bind fun _ => failsInternally_pure _

theorem lowerReturn_failsInternally (scope : Scope) (bare : BareReturn) (value : Option Expr) :
    FailsInternally (lowerReturn scope bare value) := by
  unfold lowerReturn
  refine failsInternally_ite (failsInternally_error _) ?_
  split
  · exact failsInternally_pure _
  · refine failsInternally_ite (failsInternally_pure _) ?_
    exact (Expr.lower_failsInternally scope _).bind fun _ => failsInternally_pure _
  · exact (Expr.lower_failsInternally scope _).bind fun _ => failsInternally_pure _

mutual

theorem Stmt.lower_failsInternally (scope : Scope) (bare : BareReturn) (s : Stmt) :
    FailsInternally (s.lower scope bare) := by
  cases s with
  | assign ty lhs value => exact lhs.lowerWrite_failsInternally scope value
  | expr ty e => exact (e.lower_failsInternally scope).bind fun _ => failsInternally_pure _
  | ret ty value => exact lowerReturn_failsInternally scope bare value
  | branch ty arm => exact Arm.lower_failsInternally scope bare arm
  | pass ty => exact failsInternally_ok _
termination_by structural s

theorem Arm.lower_failsInternally (scope : Scope) (bare : BareReturn) (arm : Arm) :
    FailsInternally (arm.lower scope bare) := by
  cases arm with
  | mk ty condition body alternative =>
    refine (Stmt.lowerAll_failsInternally scope bare body).bind fun yes => ?_
    cases condition with
    | none =>
      exact failsInternally_ite (failsInternally_error _) (failsInternally_pure _)
    | some e =>
      exact (Arm.lowerAlternative_failsInternally scope bare alternative).bind fun _ =>
        (e.lower_failsInternally scope).bind fun _ => failsInternally_pure _
termination_by structural arm

theorem Arm.lowerAlternative_failsInternally (scope : Scope) (bare : BareReturn)
    (alternative : Option Arm) :
    FailsInternally (Arm.lowerAlternative scope bare alternative) := by
  cases alternative with
  | none => exact failsInternally_ok _
  | some arm =>
    exact (Arm.lower_failsInternally scope bare arm).bind fun _ => failsInternally_pure _
termination_by structural alternative

theorem Stmt.lowerAll_failsInternally (scope : Scope) (bare : BareReturn) (ss : List Stmt) :
    FailsInternally (Stmt.lowerAll scope bare ss) := by
  cases ss with
  | nil => exact failsInternally_ok _
  | cons s rest =>
    exact (Stmt.lower_failsInternally scope bare s).bind fun _ =>
      (Stmt.lowerAll_failsInternally scope bare rest).bind fun _ => failsInternally_pure _
termination_by structural ss

end

/-! ## Functions -/

theorem initFields_failsInternally (cls : String) (layout : Layout) (fields : List VarDef) :
    FailsInternally (initFields cls layout fields) := by
  induction fields with
  | nil => exact failsInternally_ok _
  | cons field rest ih =>
    unfold initFields
    cases layout.offset? field.name with
    | none => exact failsInternally_error _
    | some offset => exact ih.bind fun _ => failsInternally_pure _

theorem Class.lowerConstruct_failsInternally (scope : Scope) (c : Class) :
    FailsInternally (c.lowerConstruct scope) := by
  unfold lowerConstruct
  cases scope.classes.get? c.name with
  | none => exact failsInternally_error _
  | some info =>
    dsimp only
    cases info.layout with
    | none => exact failsInternally_error _
    | some layout =>
      exact (initFields_failsInternally c.name layout c.fields).bind fun _ => failsInternally_pure _

/-- The names that the method binds, in order. -/
def Method.declarations (m : Method) : List Scope.Declaration :=
  Scope.Declaration.list m.params (m.definitions.map fun v => ⟨v.name, v.ty⟩)

/-- The generator gets as far as a method of the class that declares a name twice, which is said
of `d`. -/
def Class.Stumbles (scope : Scope) (c : Class) (d : Scope.Declaration) : Prop :=
  ∃ construct before m after methods,
    c.lowerConstruct (scope.enterClass c.name) = .ok construct ∧
      c.methods = before ++ m :: after ∧
        before.mapM (fun m => (m.lower (scope.enterClass c.name) c.name).answer) = .ok methods ∧
          d.FirstRepeat m.declarations

/-- The generator gets as far as a class with such a method. -/
def Program.Stumbles (scope : Scope) (p : Program) (d : Scope.Declaration) : Prop :=
  ∃ before c after functions, p.classes = before ++ c :: after ∧
    before.mapM (fun c => (c.lower scope).answer) = .ok functions ∧ c.Stumbles scope d

section Refusals

variable {scope : Scope} {e : Error}

theorem Method.refuses_lower (readOnly : scope.ReadOnly) {cls : String} {m : Method} :
    Refuses (m.lower scope cls).answer e ↔
      ∃ d : Scope.Declaration, d.FirstRepeat m.declarations ∧
        e = .duplicateDefinition d.what d.name none := by
  have body (inner : Scope) : FailsInternally
      (Stmt.lowerAll inner m.bare m.statements >>= fun code => .ok (m.func cls code)) :=
    (Stmt.lowerAll_failsInternally inner m.bare m.statements).bind fun _ => failsInternally_ok _
  rw [m.answer_lower, refuses_bind_of_failsInternally body, Refuses,
    Scope.enterMethod_eq_error readOnly]
  constructor
  · exact fun refused => refused.1
  · rintro ⟨d, repeats, rfl⟩
    exact ⟨⟨d, repeats, rfl⟩, rfl⟩

theorem Class.refuses_lower {c : Class} :
    Refuses (c.lower scope).answer e ↔
      ∃ d : Scope.Declaration, c.Stumbles scope d ∧
        e = .duplicateDefinition d.what d.name none := by
  have readOnly := scope.enterClass_readOnly c.name
  rw [c.answer_lower, (c.lowerConstruct_failsInternally _).refuses_bind]
  simp only [refuses_bind_of_failsInternally fun _ => failsInternally_ok _, refuses_mapM,
    Method.refuses_lower readOnly]
  constructor
  · rintro ⟨construct, made, before, m, after, methods, all, passed, d, repeats, rfl⟩
    exact ⟨d, ⟨construct, before, m, after, methods, made, all, passed, repeats⟩, rfl⟩
  · rintro ⟨d, ⟨construct, before, m, after, methods, made, all, passed, repeats⟩, rfl⟩
    exact ⟨construct, made, before, m, after, methods, all, passed, d, repeats, rfl⟩

theorem Program.refuses_lower {p : Program} {g : BareReturn} :
    Refuses ((p.lower scope).answerFrom g) e ↔
      ∃ d : Scope.Declaration, p.Stumbles scope d ∧
        e = .duplicateDefinition d.what d.name none := by
  rw [p.answerFrom_lower, refuses_bind_of_failsInternally fun functions => ?_, refuses_mapM]
  · simp only [Class.refuses_lower]
    constructor
    · rintro ⟨before, c, after, functions, all, passed, d, stumbles, rfl⟩
      exact ⟨d, ⟨before, c, after, functions, all, passed, stumbles⟩, rfl⟩
    · rintro ⟨d, ⟨before, c, after, functions, all, passed, stumbles⟩, rfl⟩
      exact ⟨before, c, after, functions, all, passed, d, stumbles, rfl⟩
  · exact (Stmt.lowerAll_failsInternally scope _ p.body).bind fun _ => failsInternally_ok _

theorem Program.Stumbles.exists_method {p : Program} {d : Scope.Declaration}
    (stumbles : p.Stumbles scope d) :
    ∃ c ∈ p.classes, ∃ m ∈ c.methods, ¬(m.variables.map Param.name).Nodup := by
  obtain ⟨before, c, after, -, all, -, -, before', m, after', -, -, all', -, repeats⟩ := stumbles
  refine ⟨c, ?_, m, ?_, ?_⟩
  · rw [all]
    exact List.mem_append_right _ List.mem_cons_self
  · rw [all']
    exact List.mem_append_right _ List.mem_cons_self
  · have twice := repeats.not_nodup
    rwa [Method.declarations, Scope.Declaration.list_names] at twice

theorem Program.refuses_lowerText {p : Program} {g : BareReturn} :
    Refuses ((p.lowerText scope).answerFrom g) e ↔
      ∃ d : Scope.Declaration, p.Stumbles scope d ∧
        e = .duplicateDefinition d.what d.name none := by
  have rendered (m : Module) : FailsInternally (.ok m.text) := failsInternally_ok m.text
  rw [p.answerFrom_lowerText, refuses_bind_of_failsInternally rendered]
  exact p.refuses_lower

end Refusals

/-- Whatever typed tree it is given and in whatever scope, the pass over layouts fails with internal
errors only, and so does the generator in every state, but for one case: where the first thing in
its way is a method that declares a name twice, it reports that name as the checker would. -/
theorem Program.failures_internal (p : Program) (scope : Scope) :
    (∀ e, scope.withLayouts p = .error e → e.family = .internal) ∧
      ∀ g, (∀ e, (p.lowerText scope).answerFrom g = .error e →
          (e.family = .internal ∨ ∃ d : Scope.Declaration, p.Stumbles scope d ∧
            e = .duplicateDefinition d.what d.name none)) ∧
        (∀ d : Scope.Declaration, p.Stumbles scope d →
          (p.lowerText scope).answerFrom g = .error (.duplicateDefinition d.what d.name none)) ∧
        ((∀ c ∈ p.classes, ∀ m ∈ c.methods, (m.variables.map Param.name).Nodup) →
          ∀ e, (p.lowerText scope).answerFrom g = .error e → e.family = .internal) := by
  have kinds (g : BareReturn) (e : Error) (failed : (p.lowerText scope).answerFrom g = .error e) :
      e.family = .internal ∨ ∃ d : Scope.Declaration, p.Stumbles scope d ∧
        e = .duplicateDefinition d.what d.name none := by
    cases kind : e.family with
    | internal => exact Or.inl rfl
    | type => exact Or.inr (p.refuses_lowerText.1 ⟨failed, kind⟩)
  refine ⟨failsInternally_foldlM Scope.setLayout_failsInternally p.classes scope, fun g =>
    ⟨kinds g, fun d stumbles => ?_, fun distinct e failed => ?_⟩⟩
  · exact (p.refuses_lowerText.2 ⟨d, stumbles, rfl⟩).1
  · rcases kinds g e failed with internal | ⟨d, stumbles, -⟩
    · exact internal
    · obtain ⟨c, mem, m, hm, twice⟩ := stumbles.exists_method
      exact absurd (distinct c mem m hm) twice

/-- A method of two parameters with one name. -/
def Program.namesake : Program where
  ty := .none
  globals := []
  classes := [
    { name := "C"
      ty := .object "C"
      fields := []
      methods := [
        { name := "m"
          ret := .none
          params := [⟨"self", .object "C"⟩, ⟨"self", .object "C"⟩]
          definitions := []
          statements := []
          bodyTy := .none }] }]
  body := []

/-- A scope with the class in it, laid out. -/
def Program.namesakeScope : Scope :=
  { Scope.empty with
    classes := .ofList [("C", { fields := .empty, methods := .empty, layout := some ⟨[]⟩ })] }

theorem Program.failures_internal_namesake :
    (∃ e, Scope.empty.withLayouts namesake = .error e ∧ e.family = .internal) ∧
      ∃ d : Scope.Declaration, namesake.Stumbles namesakeScope d ∧
        (namesake.lowerText namesakeScope).answerFrom .zero =
          .error (.duplicateDefinition d.what d.name none) := by
  let self : Param := ⟨"self", .object "C"⟩
  have repeats : Scope.Declaration.FirstRepeat ⟨"parameter", self⟩
      [⟨"parameter", self⟩, ⟨"parameter", self⟩] :=
    ⟨[⟨"parameter", self⟩], [], rfl, by decide, by decide⟩
  have stumbles : namesake.Stumbles namesakeScope ⟨"parameter", self⟩ :=
    ⟨[], _, [], [], rfl, rfl, _, [], _, [], [], rfl, rfl, rfl, repeats⟩
  exact ⟨⟨_, rfl, (failures_internal namesake .empty).1 _ rfl⟩, _, stumbles,
    ((failures_internal namesake namesakeScope).2 .zero).2.1 _ stumbles⟩

/-- A failure of the generator may be reported as the program's fault. -/
theorem Program.namesake_refused :
    (namesake.lowerText namesakeScope).answer =
        .error (.duplicateDefinition "parameter" "self" none) ∧
      ¬∀ (p : Program) (scope : Scope),
        (∀ e, scope.withLayouts p = .error e → e.family = .internal) ∧
          ∀ e, (p.lowerText scope).answer = .error e → e.family = .internal := by
  have refused : (namesake.lowerText namesakeScope).answer =
      .error (.duplicateDefinition "parameter" "self" none) := rfl
  exact ⟨refused, fun all => nomatch (all namesake namesakeScope).2 _ refused⟩

end Typed
end ClassLang
