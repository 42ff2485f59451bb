/-
The verdict on a body.

Each return of a value is held against the declared type where it stands, and the type of a body is
that of one of its returns.  So the verdict at the end of a method, which looks at the type of the
whole body, never finds a wrong value: all that it can find is that a body which has to hand back a
number or a truth value may end without a return.
-/
import ClassLang.Proofs.Checker.Naming
import ClassLang.Proofs.Returns.Definite

namespace ClassLang

/-! ## Only the verdict itself reports what a body hands back -/

/-- What is wrong with the type of a whole body. -/
def Error.isVerdict : Error → Bool
  | .unexpectedReturnValue _ | .missingReturn _ | .methodReturnMismatch _ _ _ => true
  | _ => false

/-- The computation fails, if at all, for another reason. -/
abbrev FailsEarly {α : Type} (x : Except Error α) : Prop := FailsWith (·.isVerdict = false) x

theorem FailsNaming.early {α : Type} {x : Except Error α} (h : FailsNaming x) : FailsEarly x := by
  refine h.mono fun e naming => ?_
  cases e <;> first | rfl | cases naming

theorem Ty.accepts_failsEarly (slot value : Ty) : FailsEarly (slot.accepts value) := by
  cases value with
  | any => exact .error rfl
  | _ => exact FailsWith.ok _

theorem Ty.require_failsEarly (slot value : Ty) {refusal : Error}
    (other : refusal.isVerdict = false) : FailsEarly (slot.require value refusal) :=
  (slot.accepts_failsEarly value).bind fun _ => (FailsWith.pure _).ite (.throw other)

theorem BinOp.check_failsEarly (op : BinOp) (lhs rhs : Ty) : FailsEarly (op.check lhs rhs) := by
  have same : FailsEarly (lhs.same rhs) := FailsWith.ite (.error rfl) (.ok _)
  refine same.bind fun alike => ?_
  dsimp only
  split
  · exact .pure _
  · exact .throw rfl

theorem checkArgTys_failsEarly (callee : String) (index : Nat) (params args : List Ty) :
    FailsEarly (checkArgTys callee index params args) := by
  induction params generalizing index args with
  | nil => exact .ok _
  | cons param params ih =>
    cases args with
    | nil => exact .ok _
    | cons arg args => exact (param.require_failsEarly arg rfl).bind fun _ => ih _ _

theorem VarDef.check_failsEarly (scope : Scope) (v : VarDef) : FailsEarly (v.check scope) :=
  (scope.checkDeclared_failsNaming v.ty).early.bind fun _ =>
    (v.ty.require_failsEarly v.value.ty rfl).bind fun _ => .pure _

namespace Source

variable (scope : Scope)

mutual

theorem Expr.check_failsEarly (e : Expr) : FailsEarly (e.check scope) := by
  cases e with
  | literal value => exact .ok _
  | id name => exact (scope.var_failsNaming name).early.bind fun _ => .pure _
  | unary op arg =>
    exact (Expr.check_failsEarly arg).bind fun _ => (FailsWith.pure _).ite (.throw rfl)
  | binary op lhs rhs =>
    exact (Expr.check_failsEarly lhs).bind fun _ => (Expr.check_failsEarly rhs).bind fun _ =>
      (op.check_failsEarly _ _).bind fun _ => .pure _
  | paren arg => exact (Expr.check_failsEarly arg).bind fun _ => .pure _
  | call name args =>
    rw [Expr.check]
    split
    · exact (checkConstruct_failsNaming scope name _).early
    · next signature _ =>
      exact (signature.checkCount_failsNaming name _).early.bind fun _ =>
        (Expr.checkArgs_failsEarly name 0 signature.params args).bind fun _ => .pure _
  | methodCall obj name args =>
    exact (Expr.check_failsEarly obj).bind fun _ => (Expr.checkAll_failsEarly args).bind fun _ =>
      (scope.methodSignature_failsNaming _ name).early.bind fun (_, signature) =>
        (signature.checkCount_failsNaming _ _).early.bind fun _ =>
          (checkArgTys_failsEarly _ 0 signature.params _).bind fun _ => .pure _
  | field obj name =>
    exact (Expr.check_failsEarly obj).bind fun _ =>
      (scope.fieldTy_failsNaming _ name).early.bind fun _ => .pure _
termination_by structural e

theorem Expr.checkAll_failsEarly (es : List Expr) : FailsEarly (Expr.checkAll scope es) := by
  cases es with
  | nil => exact .ok _
  | cons e rest =>
    exact (Expr.check_failsEarly e).bind fun _ => (Expr.checkAll_failsEarly rest).bind fun _ =>
      .pure _
termination_by structural es

theorem Expr.checkArgs_failsEarly (callee : String) (index : Nat) (params : List Ty)
    (es : List Expr) : FailsEarly (Expr.checkArgs scope callee index params es) := by
  cases es with
  | nil => exact .ok _
  | cons e rest =>
    cases params with
    | nil => exact .ok _
    | cons param params =>
      exact (Expr.check_failsEarly e).bind fun _ =>
        (param.require_failsEarly _ rfl).bind fun _ =>
          (Expr.checkArgs_failsEarly callee (index + 1) params rest).bind fun _ => .pure _
termination_by structural es

end

theorem checkCondition_failsEarly (condition : Option Expr) :
    FailsEarly (checkCondition scope condition) := by
  cases condition with
  | none => exact .ok _
  | some e =>
    exact (e.check_failsEarly scope).bind fun _ => (FailsWith.pure _).ite (.throw rfl)

theorem checkReturn_failsEarly (value : Option Expr) : FailsEarly (checkReturn scope value) := by
  unfold checkReturn
  refine .ite (.throw_bind (by rfl)) ?_
  split
  · exact .pure _
  · next e =>
    exact (e.check_failsEarly scope).bind fun _ =>
      (scope.returns.require_failsEarly _ rfl).bind fun _ => .pure _

mutual

theorem Stmt.check_failsEarly (s : Stmt) : FailsEarly (s.check scope) := by
  cases s with
  | assign lhs value =>
    exact (lhs.check_failsNaming scope).early.bind fun _ =>
      (value.check_failsEarly scope).bind fun _ =>
        (Ty.require_failsEarly _ _ rfl).bind fun _ => .pure _
  | expr e => exact (e.check_failsEarly scope).bind fun _ => .pure _
  | ret value => exact checkReturn_failsEarly scope value
  | branch arm => exact (Arm.check_failsEarly arm).bind fun _ => .pure _
  | pass => exact .ok _
termination_by structural s

theorem Arm.check_failsEarly (arm : Arm) : FailsEarly (arm.check scope) := by
  cases arm with
  | mk condition body alternative =>
    refine (checkCondition_failsEarly scope condition).bind fun _ =>
      (Arm.checkAlternative_failsEarly alternative).bind fun _ =>
        (Stmt.checkAll_failsEarly body).bind fun _ => ?_
    split
    · exact .pure _
    · exact .throw rfl
termination_by structural arm

theorem Arm.checkAlternative_failsEarly (alternative : Option Arm) :
    FailsEarly (Arm.checkAlternative scope alternative) := by
  cases alternative with
  | none => exact .ok _
  | some arm => exact (Arm.check_failsEarly arm).bind fun _ => .pure _
termination_by structural alternative

theorem Stmt.checkAll_failsEarly (ss : List Stmt) : FailsEarly (Stmt.checkAll scope ss) := by
  cases ss with
  | nil => exact .ok _
  | cons s rest =>
    exact (Stmt.check_failsEarly s).bind fun _ => (Stmt.checkAll_failsEarly rest).bind fun _ =>
      .pure _
termination_by structural ss

end

end Source

/-! ## The type of a body goes into the declared type -/

namespace Typed

/-- The type of a body is that of one of its statements. -/
theorem bodyTy_takes {slot : Ty} {stmts : List Stmt}
    (each : ∀ s ∈ stmts, s.ty ≠ .none → slot.Takes s.ty) (valued : bodyTy stmts ≠ .none) :
    slot.Takes (bodyTy stmts) := by
  rcases bodyTy_cases stmts with absent | ⟨s, mem, same⟩
  · exact absurd absent valued
  · rw [← same] at valued ⊢
    exact each s mem valued

mutual

theorem Stmt.Checked.returns_takes {scope : Scope} {s : Stmt} (h : s.Checked scope)
    (valued : s.ty ≠ .none) : scope.returns.Takes s.ty := by
  cases h with
  | assign | expr | bareRet | pass => exact absurd rfl valued
  | ret inside checked takes => exact takes
  | branch checked => exact Arm.Checked.returns_takes checked valued

theorem Arm.Checked.returns_takes {scope : Scope} {arm : Arm} (h : arm.Checked scope)
    (valued : arm.ty ≠ .none) : scope.returns.Takes arm.ty := by
  cases h with
  | mk test other block merged =>
    -- a chain with a type has that of its first body
    rcases armTy?_cases merged with absent | rfl
    · exact absurd absent valued
    · exact bodyTy_takes (fun s mem => Stmt.Checked.returns_takes (block s mem)) valued

end

end Typed

/-! ## What the verdict may be -/

namespace Source

theorem Method.bodyTy_takes {outer inner : Scope} {ret : Ty} {params locals : List Param}
    (enters : outer.enterMethod ret params locals = .ok inner) {stmts : List Stmt}
    {typed : List Typed.Stmt} (passed : Stmt.checkAll inner stmts = .ok typed)
    (valued : Typed.bodyTy typed ≠ .none) : ret.Takes (Typed.bodyTy typed) := by
  rw [← (Scope.enterMethod_enters enters).returns]
  exact Typed.bodyTy_takes (fun s mem => (Stmt.checkAll_checked passed s mem).returns_takes) valued

/-- A body that has passed is refused exactly if it has to hand back a number or a truth value and
has no type. -/
theorem Method.verdict_eq_error {scope inner : Scope} {m : Method}
    (opens : scope.Opens m.params m.ret m.definitions inner)
    (quiet : m.name = constructorName → Stmt.anyReturnsValue m.statements = false)
    {typed : List Typed.Stmt} (passed : Stmt.checkAll inner m.statements = .ok typed) {e : Error} :
    m.check scope = .error e ↔
      e = .missingReturn m.name ∧ (m.ret = .int ∨ m.ret = .bool) ∧ Typed.bodyTy typed = .none := by
  rw [check_of_passed opens quiet passed]
  by_cases takes : m.ret.Takes (Typed.bodyTy typed)
  · -- nothing is wrong
    rw [(Ty.require_eq_ok (u := ())).2 takes]
    refine iff_of_false nofun ?_
    rintro ⟨-, valued, absent⟩
    rw [absent, Ty.takes_none_iff] at takes
    exact valued.elim takes.1 takes.2
  · have absent : Typed.bodyTy typed = .none :=
      by_contra fun valued => takes (bodyTy_takes opens.enters passed valued)
    rw [absent, Ty.takes_none_iff, not_and_or, not_not, not_not] at takes
    rw [absent]
    unfold returnError
    rcases takes with isInt | isBool
    · rw [isInt]
      exact ⟨fun | rfl => ⟨rfl, Or.inl rfl, rfl⟩, fun | ⟨rfl, _⟩ => rfl⟩
    · rw [isBool]
      exact ⟨fun | rfl => ⟨rfl, Or.inr rfl, rfl⟩, fun | ⟨rfl, _⟩ => rfl⟩

/-- A method that is refused for what it hands back has passed in everything else. -/
theorem Method.check_eq_verdict {scope : Scope} {m : Method} {e : Error}
    (verdict : e.isVerdict = true) :
    m.check scope = .error e ↔
      e = .missingReturn m.name ∧ (m.ret = .int ∨ m.ret = .bool) ∧
        ∃ inner, scope.Opens m.params m.ret m.definitions inner ∧
          (m.name = constructorName → Stmt.anyReturnsValue m.statements = false) ∧
            ∃ typed, Stmt.checkAll inner m.statements = .ok typed ∧
              Typed.bodyTy typed = .none := by
  have late : ¬e.isVerdict = false := ne_of_eq_of_ne verdict Bool.noConfusion
  have declared (ty : Ty) : FailsEarly (scope.checkDeclared ty) :=
    (scope.checkDeclared_failsNaming ty).early
  have params := FailsWith.forM (fun p : Param => declared p.ty) m.params
  have definitions := FailsWith.mapM (VarDef.check_failsEarly scope) m.definitions
  constructor
  · intro whole
    obtain ⟨_, hparams, failed⟩ := (params.bind_eq_error late).1 whole
    obtain ⟨_, hret, failed⟩ := ((declared m.ret).bind_eq_error late).1 failed
    obtain ⟨_, hdefs, failed⟩ := (definitions.bind_eq_error late).1 failed
    obtain ⟨rfl, defs⟩ := VarDef.mapM_check_eq_ok.1 hdefs
    obtain ⟨inner, enters, failed⟩ :=
      ((scope.enterMethod_failsNaming _ _ _).early.bind_eq_error late).1 failed
    have opens : scope.Opens m.params m.ret m.definitions inner :=
      ⟨fun p mem => Scope.checkDeclared_eq_ok.1 (forM_eq_ok.1 hparams p mem),
        Scope.checkDeclared_eq_ok.1 hret, defs, enters⟩
    split at failed
    · cases failed
      cases verdict
    · next quiet =>
      rw [Bool.and_eq_true, decide_eq_true_eq, not_and, Bool.not_eq_true] at quiet
      obtain ⟨typed, passed, -⟩ :=
        ((Stmt.checkAll_failsEarly inner _).bind_eq_error late).1 failed
      obtain ⟨missing, valued, absent⟩ := (verdict_eq_error opens quiet passed).1 whole
      exact ⟨missing, valued, inner, opens, quiet, typed, passed, absent⟩
  · rintro ⟨rfl, valued, inner, opens, quiet, typed, passed, absent⟩
    exact (verdict_eq_error opens quiet passed).2 ⟨rfl, valued, absent⟩

/-- A body that passes with a type may be handed back: its type goes into the declared one.  So no
method is refused because it returns anything or because it returns something wrong.  It is refused
for a return that is missing exactly if it is declared to return a number or a truth value, nothing
else is wrong with it, and its body has no type. -/
theorem Method.verdict_only_missing (scope : Scope) (m : Method) :
    (∀ inner typed,
      scope.enterMethod m.ret m.params (m.definitions.map fun v => ⟨v.name, v.ty⟩) = .ok inner →
      Stmt.checkAll inner m.statements = .ok typed → Typed.bodyTy typed ≠ .none →
      m.ret.accepts (Typed.bodyTy typed) = .ok true) ∧
    (∀ name, m.check scope ≠ .error (.unexpectedReturnValue name)) ∧
    (∀ name expected got, m.check scope ≠ .error (.methodReturnMismatch name expected got)) ∧
    ∀ name, m.check scope = .error (.missingReturn name) ↔
      name = m.name ∧ (m.ret = .int ∨ m.ret = .bool) ∧
        ∃ inner, scope.Opens m.params m.ret m.definitions inner ∧
          (m.name = constructorName → Stmt.anyReturnsValue m.statements = false) ∧
            ∃ typed, Stmt.checkAll inner m.statements = .ok typed ∧
              Typed.bodyTy typed = .none := by
  refine ⟨fun inner typed enters passed valued => ?_, fun name failed => ?_,
    fun name expected got failed => ?_, fun name => ?_⟩
  · exact Ty.accepts_eq_ok_true.2 (bodyTy_takes enters passed valued)
  · exact Error.noConfusion ((check_eq_verdict rfl).1 failed).1
  · exact Error.noConfusion ((check_eq_verdict rfl).1 failed).1
  · rw [check_eq_verdict rfl, Error.missingReturn.injEq]

/-- Returns a number if `b` holds, and does something else if not. -/
def Method.forked (otherwise : List Stmt) : Method where
  name := "m"
  params := [⟨"b", .bool⟩]
  ret := .int
  definitions := []
  statements := [.ifElse (.id "b") [.give (.int 1)] (.otherwise otherwise)]

/-- With a return at the bottom of the other arm the body has the declared type, and without one it
has no type. -/
theorem Method.verdict_only_missing_forked :
    (∃ inner typed,
      (Scope.empty.enterClass "C").enterMethod .int [⟨"b", .bool⟩] [] = .ok inner ∧
      Stmt.checkAll inner (forked
        [.ifElse (.id "b") [.pass, .give (.int 2)] (.otherwise [.give (.int 3)])]).statements =
          .ok typed ∧
      Ty.int.accepts (Typed.bodyTy typed) = .ok true) ∧
    (forked [.ifThen (.id "b") [.give (.int 2)]]).check (Scope.empty.enterClass "C") =
      .error (.missingReturn "m") := by
  have full := verdict_only_missing (Scope.empty.enterClass "C")
    (forked [.ifElse (.id "b") [.pass, .give (.int 2)] (.otherwise [.give (.int 3)])])
  have partly := verdict_only_missing (Scope.empty.enterClass "C")
    (forked [.ifThen (.id "b") [.give (.int 2)]])
  refine ⟨⟨_, _, rfl, rfl, full.1 _ _ rfl rfl Ty.noConfusion⟩, (partly.2.2.2 "m").2 ?_⟩
  refine ⟨rfl, Or.inl rfl, _, ⟨?_, ?_, nofun, rfl⟩, nofun, _, rfl, rfl⟩
  · intro p mem
    cases List.mem_singleton.1 mem
    exact ⟨Ty.noConfusion, nofun⟩
  · exact ⟨Ty.noConfusion, nofun⟩

end Source
end ClassLang
