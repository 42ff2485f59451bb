/-
Parentheses.

Stripping a program of its parentheses changes neither what the checker answers nor the types that
it finds, with one exception: in a constructor, `return (None)` counts as returning a value and
`return None` does not.
-/
import ClassLang.Proofs.Checker.Methods
import ClassLang.Source.Build
import ClassLang.Typed.Expressions

namespace ClassLang

/-! ## Stripping -/

namespace Source

mutual

/-- The expression with every parenthesized expression in it replaced by its content. -/
def Expr.unparen : Expr → Expr
  | .literal value => .literal value
  | .id name => .id name
  | .unary op arg => .unary op arg.unparen
  | .binary op lhs rhs => .binary op lhs.unparen rhs.unparen
  | .paren arg => arg.unparen
  | .call name args => .call name (Expr.unparenAll args)
  | .methodCall obj name args => .methodCall obj.unparen name (Expr.unparenAll args)
  | .field obj name => .field obj.unparen name
termination_by structural e => e

def Expr.unparenAll : List Expr → List Expr
  | [] => []
  | e :: rest => e.unparen :: Expr.unparenAll rest
termination_by structural es => es

end

mutual

def Stmt.unparen : Stmt → Stmt
  | .assign lhs value => .assign lhs value.unparen
  | .expr e => .expr e.unparen
  | .ret value => .ret (value.map (·.unparen))
  | .branch arm => .branch arm.unparen
  | .pass => .pass
termination_by structural s => s

def Arm.unparen : Arm → Arm
  | .mk condition body alternative =>
    .mk (condition.map (·.unparen)) (Stmt.unparenAll body) (Arm.unparenAlternative alternative)
termination_by structural a => a

def Arm.unparenAlternative : Option Arm → Option Arm
  | none => none
  | some arm => some arm.unparen
termination_by structural a => a

def Stmt.unparenAll : List Stmt → List Stmt
  | [] => []
  | s :: rest => s.unparen :: Stmt.unparenAll rest
termination_by structural ss => ss

end

def Method.unparen (m : Method) : Method := { m with statements := Stmt.unparenAll m.statements }

def Program.unparen (p : Program) : Program :=
  { p.mapMethods Method.unparen with body := Stmt.unparenAll p.body }

end Source

namespace Typed

mutual

def Expr.unparen : Expr → Expr
  | .literal ty value => .literal ty value
  | .id ty name => .id ty name
  | .unary ty op arg => .unary ty op arg.unparen
  | .binary ty op lhs rhs => .binary ty op lhs.unparen rhs.unparen
  | .paren _ arg => arg.unparen
  | .call ty name args => .call ty name (Expr.unparenAll args)
  | .construct ty cls => .construct ty cls
  | .methodCall ty obj name args => .methodCall ty obj.unparen name (Expr.unparenAll args)
  | .field ty obj name => .field ty obj.unparen name
termination_by structural e => e

def Expr.unparenAll : List Expr → List Expr
  | [] => []
  | e :: rest => e.unparen :: Expr.unparenAll rest
termination_by structural es => es

end

mutual

def Stmt.unparen : Stmt → Stmt
  | .assign ty lhs value => .assign ty lhs value.unparen
  | .expr ty e => .expr ty e.unparen
  | .ret ty value => .ret ty (value.map (·.unparen))
  | .branch ty arm => .branch ty arm.unparen
  | .pass ty => .pass ty
termination_by structural s => s

def Arm.unparen : Arm → Arm
  | .mk ty condition body alternative =>
    .mk ty (condition.map (·.unparen)) (Stmt.unparenAll body) (Arm.unparenAlternative alternative)
termination_by structural a => a

def Arm.unparenAlternative : Option Arm → Option Arm
  | none => none
  | some arm => some arm.unparen
termination_by structural a => a

def Stmt.unparenAll : List Stmt → List Stmt
  | [] => []
  | s :: rest => s.unparen :: Stmt.unparenAll rest
termination_by structural ss => ss

end

def Method.unparen (m : Method) : Method := { m with statements := Stmt.unparenAll m.statements }

def Program.unparen (p : Program) : Program :=
  { p.mapMethods Method.unparen with body := Stmt.unparenAll p.body }

/-! ## Types stay -/

theorem Expr.Checked.ty_unparen {scope : Scope} {e : Expr} (h : e.Checked scope) :
    e.unparen.ty = e.ty := by
  induction h with
  | paren _ ih => exact ih
  | _ => rfl

theorem Expr.unparenAll_eq_map (es : List Expr) : Expr.unparenAll es = es.map (·.unparen) := by
  induction es with
  | nil => rfl
  | cons e rest ih => rw [Expr.unparenAll, ih, List.map_cons]

theorem Expr.length_unparenAll (es : List Expr) : (Expr.unparenAll es).length = es.length := by
  rw [unparenAll_eq_map, List.length_map]

theorem Expr.tys_unparenAll {scope : Scope} {es : List Expr} (h : ∀ e ∈ es, e.Checked scope) :
    (Expr.unparenAll es).map Expr.ty = es.map Expr.ty := by
  rw [unparenAll_eq_map, List.map_map]
  exact List.map_congr_left fun e mem => (h e mem).ty_unparen

theorem Stmt.ty_unparen (s : Stmt) : s.unparen.ty = s.ty := by
  cases s <;> rfl

theorem Arm.ty_unparen (arm : Arm) : arm.unparen.ty = arm.ty := by
  cases arm
  rfl

theorem Arm.ty_unparenAlternative (alternative : Option Arm) :
    (Arm.unparenAlternative alternative).map Arm.ty = alternative.map Arm.ty := by
  cases alternative with
  | none => rfl
  | some arm => exact congrArg some arm.ty_unparen

theorem Stmt.unparenAll_eq_map (stmts : List Stmt) :
    Stmt.unparenAll stmts = stmts.map (·.unparen) := by
  induction stmts with
  | nil => rfl
  | cons s rest ih => rw [Stmt.unparenAll, ih, List.map_cons]

theorem bodyTy_unparenAll (stmts : List Stmt) : bodyTy (Stmt.unparenAll stmts) = bodyTy stmts := by
  simp only [bodyTy, Stmt.unparenAll_eq_map, List.foldl_map, Stmt.ty_unparen]

/-! ## Expressions that correspond -/

def Expr.isParen : Expr → Bool
  | .paren _ _ => true
  | _ => false

/-- What becomes of a list of expressions: those that are parenthesized go. -/
def Expr.strip (es : List Expr) : List Expr := (es.filter fun e => !e.isParen).map (·.unparen)

theorem Expr.strip_append (first second : List Expr) :
    Expr.strip (first ++ second) = Expr.strip first ++ Expr.strip second := by
  rw [strip, List.filter_append, List.map_append]
  rfl

theorem Expr.strip_flatMap {α : Type} (l : List α) (f : α → List Expr) :
    Expr.strip (l.flatMap f) = l.flatMap fun a => Expr.strip (f a) := by
  rw [strip, List.filter_flatMap, List.map_flatMap]
  rfl

mutual

theorem Expr.all_unparen (e : Expr) : e.unparen.all = Expr.strip e.all := by
  cases e with
  | literal | id | construct => rfl
  | unary ty op arg =>
    show _ :: arg.unparen.all = _ :: Expr.strip arg.all
    rw [Expr.all_unparen arg]
    rfl
  | binary ty op lhs rhs =>
    show _ :: (lhs.unparen.all ++ rhs.unparen.all) = _ :: Expr.strip (lhs.all ++ rhs.all)
    rw [Expr.all_unparen lhs, Expr.all_unparen rhs, Expr.strip_append]
    rfl
  | paren ty arg => exact Expr.all_unparen arg
  | call ty name args =>
    show _ :: Expr.allOf (Expr.unparenAll args) = _ :: Expr.strip (Expr.allOf args)
    rw [Expr.allOf_unparenAll args]
    rfl
  | methodCall ty obj name args =>
    show _ :: (obj.unparen.all ++ Expr.allOf (Expr.unparenAll args)) =
      _ :: Expr.strip (obj.all ++ Expr.allOf args)
    rw [Expr.all_unparen obj, Expr.allOf_unparenAll args, Expr.strip_append]
    rfl
  | field ty obj name =>
    show _ :: obj.unparen.all = _ :: Expr.strip obj.all
    rw [Expr.all_unparen obj]
    rfl

theorem Expr.allOf_unparenAll (es : List Expr) :
    Expr.allOf (Expr.unparenAll es) = Expr.strip (Expr.allOf es) := by
  cases es with
  | nil => rfl
  | cons e rest =>
    rw [Expr.unparenAll, Expr.allOf, Expr.allOf, Expr.all_unparen e, Expr.allOf_unparenAll rest,
      Expr.strip_append]

end

theorem Expr.allOf_optional_unparen (value : Option Expr) :
    Expr.allOf (value.map (·.unparen)).toList = Expr.strip (Expr.allOf value.toList) := by
  cases value with
  | none => rfl
  | some e => exact Expr.allOf_unparenAll [e]

mutual

theorem Stmt.exprs_unparen (s : Stmt) : s.unparen.exprs = Expr.strip s.exprs := by
  cases s with
  | assign ty lhs value => exact value.all_unparen
  | expr ty e => exact e.all_unparen
  | ret ty value => exact Expr.allOf_optional_unparen value
  | branch ty arm => exact Arm.exprs_unparen arm
  | pass ty => rfl

theorem Arm.exprs_unparen (arm : Arm) : arm.unparen.exprs = Expr.strip arm.exprs := by
  cases arm with
  | mk ty condition body alternative =>
    rw [Arm.unparen, Arm.exprs, Arm.exprs, Expr.allOf_optional_unparen,
      Stmt.exprsOf_unparenAll body, Arm.alternativeExprs_unparen alternative, Expr.strip_append,
      Expr.strip_append]

theorem Arm.alternativeExprs_unparen (alternative : Option Arm) :
    Arm.alternativeExprs (Arm.unparenAlternative alternative) =
      Expr.strip (Arm.alternativeExprs alternative) := by
  cases alternative with
  | none => rfl
  | some arm => exact Arm.exprs_unparen arm

theorem Stmt.exprsOf_unparenAll (stmts : List Stmt) :
    Stmt.exprsOf (Stmt.unparenAll stmts) = Expr.strip (Stmt.exprsOf stmts) := by
  cases stmts with
  | nil => rfl
  | cons s rest =>
    rw [Stmt.unparenAll, Stmt.exprsOf, Stmt.exprsOf, Stmt.exprs_unparen s,
      Stmt.exprsOf_unparenAll rest, Expr.strip_append]

end

/-- Expression by expression, the stripped program has those of the program that are not
parenthesized. -/
theorem Program.expressions_unparen (p : Program) :
    p.unparen.expressions = Expr.strip p.expressions := by
  rw [expressions, expressions, Expr.strip_append, Expr.strip_flatMap]
  congr 1
  · exact Stmt.exprsOf_unparenAll p.body
  · show (p.classes.map (·.mapMethods Method.unparen)).flatMap _ = _
    rw [List.flatMap_map]
    refine List.flatMap_congr fun c _ => ?_
    show (c.methods.map Method.unparen).flatMap _ = _
    rw [List.flatMap_map, Expr.strip_flatMap]
    exact List.flatMap_congr fun m _ => Stmt.exprsOf_unparenAll m.statements

end Typed

namespace Source

/-! ## What the checker makes of stripped expressions -/

section Expressions

variable {scope : Scope}

theorem Expr.length_unparenAll (es : List Expr) : (Expr.unparenAll es).length = es.length := by
  induction es with
  | nil => rfl
  | cons e rest ih => rw [Expr.unparenAll, List.length_cons, List.length_cons, ih]

theorem map_checkConstruct (cls : String) (args : Nat) :
    (checkConstruct scope cls args).map Typed.Expr.unparen = checkConstruct scope cls args := by
  unfold checkConstruct
  split
  · rfl
  · split <;> rfl

mutual

theorem Expr.check_unparen (e : Expr) :
    e.unparen.check scope = (e.check scope).map Typed.Expr.unparen := by
  cases e with
  | literal value => rfl
  | id name =>
    rw [Expr.unparen, Expr.check]
    exact bind_eq_map_bind_of_same fun _ _ => rfl
  | unary op arg =>
    rw [Expr.unparen, Expr.check, Expr.check]
    refine bind_eq_map_bind (Expr.check_unparen arg) fun a passed => ?_
    rw [(check_checked passed).ty_unparen]
    split <;> rfl
  | binary op lhs rhs =>
    rw [Expr.unparen, Expr.check, Expr.check]
    refine bind_eq_map_bind (Expr.check_unparen lhs) fun l left => ?_
    refine bind_eq_map_bind (Expr.check_unparen rhs) fun r right => ?_
    rw [(check_checked left).ty_unparen, (check_checked right).ty_unparen]
    exact bind_eq_map_bind_of_same fun _ _ => rfl
  | paren arg =>
    rw [Expr.unparen, Expr.check, Expr.check_unparen arg]
    cases arg.check scope <;> rfl
  | call name args =>
    rw [Expr.unparen, Expr.check, Expr.check, Expr.length_unparenAll]
    split
    · exact (map_checkConstruct name args.length).symm
    · refine bind_eq_map_bind_of_same fun _ _ => ?_
      exact bind_eq_map_bind (Expr.checkArgs_unparenAll args) fun _ _ => rfl
  | methodCall obj name args =>
    rw [Expr.unparen, Expr.check, Expr.check]
    refine bind_eq_map_bind (Expr.check_unparen obj) fun o receiver => ?_
    refine bind_eq_map_bind (Expr.checkAll_unparenAll args) fun ts passed => ?_
    rw [(check_checked receiver).ty_unparen, Typed.Expr.tys_unparenAll (checkAll_checked passed),
      Typed.Expr.length_unparenAll]
    refine bind_eq_map_bind_of_same fun _ _ => ?_
    refine bind_eq_map_bind_of_same fun _ _ => ?_
    exact bind_eq_map_bind_of_same fun _ _ => rfl
  | field obj name =>
    rw [Expr.unparen, Expr.check, Expr.check]
    refine bind_eq_map_bind (Expr.check_unparen obj) fun o receiver => ?_
    rw [(check_checked receiver).ty_unparen]
    exact bind_eq_map_bind_of_same fun _ _ => rfl

theorem Expr.checkAll_unparenAll (es : List Expr) :
    Expr.checkAll scope (Expr.unparenAll es) =
      (Expr.checkAll scope es).map Typed.Expr.unparenAll := by
  cases es with
  | nil => rfl
  | cons e rest =>
    rw [Expr.unparenAll, Expr.checkAll, Expr.checkAll]
    refine bind_eq_map_bind (Expr.check_unparen e) fun _ _ => ?_
    exact bind_eq_map_bind (Expr.checkAll_unparenAll rest) fun _ _ => rfl

theorem Expr.checkArgs_unparenAll {callee : String} {index : Nat} {params : List Ty}
    (es : List Expr) :
    Expr.checkArgs scope callee index params (Expr.unparenAll es) =
      (Expr.checkArgs scope callee index params es).map Typed.Expr.unparenAll := by
  cases es with
  | nil => rfl
  | cons e rest =>
    rw [Expr.unparenAll]
    cases params with
    | nil => rfl
    | cons param params =>
      rw [Expr.checkArgs, Expr.checkArgs]
      refine bind_eq_map_bind (Expr.check_unparen e) fun t passed => ?_
      rw [(check_checked passed).ty_unparen]
      refine bind_eq_map_bind_of_same fun _ _ => ?_
      exact bind_eq_map_bind (Expr.checkArgs_unparenAll rest) fun _ _ => rfl

end

end Expressions

/-! ## What the checker makes of stripped statements -/

section Statements

variable {scope : Scope}

theorem checkCondition_unparen (condition : Option Expr) :
    checkCondition scope (condition.map (·.unparen)) =
      (checkCondition scope condition).map (Option.map Typed.Expr.unparen) := by
  cases condition with
  | none => rfl
  | some e =>
    rw [Option.map_some, checkCondition, checkCondition]
    refine bind_eq_map_bind (Expr.check_unparen e) fun t passed => ?_
    rw [(Expr.check_checked passed).ty_unparen]
    split <;> rfl

theorem checkReturn_unparen (value : Option Expr) :
    checkReturn scope (value.map (·.unparen)) =
      (checkReturn scope value).map Typed.Stmt.unparen := by
  unfold checkReturn
  cases scope.inMethod with
  | false => rfl
  | true =>
    cases value with
    | none => rfl
    | some e =>
      refine bind_eq_map_bind (Expr.check_unparen e) fun t passed => ?_
      rw [(Expr.check_checked passed).ty_unparen]
      exact bind_eq_map_bind_of_same fun _ _ => rfl

mutual

theorem Stmt.check_unparen (s : Stmt) :
    s.unparen.check scope = (s.check scope).map Typed.Stmt.unparen := by
  cases s with
  | assign lhs value =>
    rw [Stmt.unparen, Stmt.check, Stmt.check]
    refine bind_eq_map_bind_of_same fun _ _ => ?_
    refine bind_eq_map_bind (Expr.check_unparen value) fun v passed => ?_
    rw [(Expr.check_checked passed).ty_unparen]
    exact bind_eq_map_bind_of_same fun _ _ => rfl
  | expr e =>
    rw [Stmt.unparen, Stmt.check, Stmt.check]
    exact bind_eq_map_bind (Expr.check_unparen e) fun _ _ => rfl
  | ret value => exact checkReturn_unparen value
  | branch arm =>
    rw [Stmt.unparen, Stmt.check, Stmt.check]
    refine bind_eq_map_bind (Arm.check_unparen arm) fun a _ => ?_
    rw [Typed.Arm.ty_unparen]
    rfl
  | pass => rfl

theorem Arm.check_unparen (arm : Arm) :
    arm.unparen.check scope = (arm.check scope).map Typed.Arm.unparen := by
  cases arm with
  | mk condition body alternative =>
    rw [Arm.unparen, Arm.check, Arm.check]
    refine bind_eq_map_bind (checkCondition_unparen condition) fun test _ => ?_
    refine bind_eq_map_bind (Arm.checkAlternative_unparen alternative) fun other _ => ?_
    refine bind_eq_map_bind (Stmt.checkAll_unparen body) fun block _ => ?_
    rw [Option.isSome_map, Typed.Arm.ty_unparenAlternative, Typed.bodyTy_unparenAll]
    cases Typed.armTy? test.isSome (other.map (·.ty)) (Typed.bodyTy block) <;> rfl

theorem Arm.checkAlternative_unparen (alternative : Option Arm) :
    Arm.checkAlternative scope (Arm.unparenAlternative alternative) =
      (Arm.checkAlternative scope alternative).map Typed.Arm.unparenAlternative := by
  cases alternative with
  | none => rfl
  | some arm =>
    rw [Arm.unparenAlternative, Arm.checkAlternative, Arm.checkAlternative]
    exact bind_eq_map_bind (Arm.check_unparen arm) fun _ _ => rfl

theorem Stmt.checkAll_unparen (stmts : List Stmt) :
    Stmt.checkAll scope (Stmt.unparenAll stmts) =
      (Stmt.checkAll scope stmts).map Typed.Stmt.unparenAll := by
  cases stmts with
  | nil => rfl
  | cons s rest =>
    rw [Stmt.unparenAll, Stmt.checkAll, Stmt.checkAll]
    refine bind_eq_map_bind (Stmt.check_unparen s) fun _ _ => ?_
    exact bind_eq_map_bind (Stmt.checkAll_unparen rest) fun _ _ => rfl

end

end Statements

/-! ## What constructors return -/

mutual

/-- What stands behind the returns within a statement. -/
def Stmt.returned : Stmt → List Expr
  | .ret value => value.toList
  | .branch arm => arm.returned
  | _ => []
termination_by structural s => s

def Arm.returned : Arm → List Expr
  | .mk _ body alternative => Stmt.returnedOf body ++ Arm.alternativeReturned alternative
termination_by structural a => a

def Arm.alternativeReturned : Option Arm → List Expr
  | none => []
  | some arm => arm.returned
termination_by structural a => a

def Stmt.returnedOf : List Stmt → List Expr
  | [] => []
  | s :: rest => s.returned ++ Stmt.returnedOf rest
termination_by structural ss => ss

end

mutual

theorem Stmt.returnsValue_eq_false (s : Stmt) :
    s.returnsValue = false ↔ ∀ e ∈ s.returned, e = .absent := by
  cases s with
  | ret value =>
    cases value with
    | none => simp [Stmt.returnsValue, Stmt.returned]
    | some e =>
      rw [Stmt.returned, Option.toList_some, List.forall_mem_singleton]
      unfold Expr.absent Stmt.returnsValue
      split <;> simp_all
  | branch arm => exact Arm.returnsValue_eq_false arm
  | _ => simp [Stmt.returnsValue, Stmt.returned]

theorem Arm.returnsValue_eq_false (arm : Arm) :
    arm.returnsValue = false ↔ ∀ e ∈ arm.returned, e = .absent := by
  cases arm with
  | mk condition body alternative =>
    rw [Arm.returnsValue, Arm.returned, Bool.or_eq_false_iff, List.forall_mem_append,
      Stmt.anyReturnsValue_eq_false body, Arm.alternativeReturnsValue_eq_false alternative]

theorem Arm.alternativeReturnsValue_eq_false (alternative : Option Arm) :
    Arm.alternativeReturnsValue alternative = false ↔
      ∀ e ∈ Arm.alternativeReturned alternative, e = .absent := by
  cases alternative with
  | none => exact ⟨fun _ => List.forall_mem_nil _, fun _ => rfl⟩
  | some arm => exact Arm.returnsValue_eq_false arm

theorem Stmt.anyReturnsValue_eq_false (stmts : List Stmt) :
    Stmt.anyReturnsValue stmts = false ↔ ∀ e ∈ Stmt.returnedOf stmts, e = .absent := by
  cases stmts with
  | nil => exact ⟨fun _ => List.forall_mem_nil _, fun _ => rfl⟩
  | cons s rest =>
    rw [Stmt.anyReturnsValue, Stmt.returnedOf, Bool.or_eq_false_iff, List.forall_mem_append,
      Stmt.returnsValue_eq_false s, Stmt.anyReturnsValue_eq_false rest]

end

mutual

theorem Stmt.returned_unparen (s : Stmt) : s.unparen.returned = s.returned.map (·.unparen) := by
  cases s with
  | ret value => cases value <;> rfl
  | branch arm => exact Arm.returned_unparen arm
  | _ => rfl

theorem Arm.returned_unparen (arm : Arm) : arm.unparen.returned = arm.returned.map (·.unparen) := by
  cases arm with
  | mk condition body alternative =>
    rw [Arm.unparen, Arm.returned, Arm.returned, List.map_append, Stmt.returnedOf_unparenAll body,
      Arm.alternativeReturned_unparen alternative]

theorem Arm.alternativeReturned_unparen (alternative : Option Arm) :
    Arm.alternativeReturned (Arm.unparenAlternative alternative) =
      (Arm.alternativeReturned alternative).map (·.unparen) := by
  cases alternative with
  | none => rfl
  | some arm => exact Arm.returned_unparen arm

theorem Stmt.returnedOf_unparenAll (stmts : List Stmt) :
    Stmt.returnedOf (Stmt.unparenAll stmts) = (Stmt.returnedOf stmts).map (·.unparen) := by
  cases stmts with
  | nil => rfl
  | cons s rest =>
    rw [Stmt.unparenAll, Stmt.returnedOf, Stmt.returnedOf, List.map_append,
      Stmt.returned_unparen s, Stmt.returnedOf_unparenAll rest]

end

/-- Where a constructor returns the absent value, it does so without parentheses. -/
def Method.Unwrapped (m : Method) : Prop :=
  m.name = constructorName → ∀ e ∈ Stmt.returnedOf m.statements, e.unparen = .absent → e = .absent

def Program.Unwrapped (p : Program) : Prop := ∀ c ∈ p.classes, ∀ m ∈ c.methods, m.Unwrapped

theorem Method.Unwrapped.anyReturnsValue_unparen {m : Method} (unwrapped : m.Unwrapped)
    (constructor : m.name = constructorName) :
    Stmt.anyReturnsValue (Stmt.unparenAll m.statements) = Stmt.anyReturnsValue m.statements := by
  rw [Bool.eq_iff_iff, ← not_iff_not, Bool.not_eq_true, Bool.not_eq_true,
    Stmt.anyReturnsValue_eq_false, Stmt.anyReturnsValue_eq_false, Stmt.returnedOf_unparenAll,
    List.forall_mem_map]
  refine forall₂_congr fun e mem => ⟨unwrapped constructor e mem, ?_⟩
  rintro rfl
  rfl

/-! ## Programs -/

section Programs

variable {scope : Scope}

theorem Method.check_unparen {m : Method} (unwrapped : m.Unwrapped) :
    m.unparen.check scope = (m.check scope).map Typed.Method.unparen := by
  have scan : (m.name = constructorName && Stmt.anyReturnsValue (Stmt.unparenAll m.statements)) =
      (m.name = constructorName && Stmt.anyReturnsValue m.statements) := by
    by_cases constructor : m.name = constructorName
    · rw [unwrapped.anyReturnsValue_unparen constructor]
    · simp only [constructor, decide_false, Bool.false_and]
  rw [Method.check, Method.check, Method.unparen]
  refine bind_eq_map_bind_of_same fun _ _ => ?_
  refine bind_eq_map_bind_of_same fun _ _ => ?_
  refine bind_eq_map_bind_of_same fun definitions _ => ?_
  refine bind_eq_map_bind_of_same fun inner _ => ?_
  simp only [scan]
  split
  · rfl
  · refine bind_eq_map_bind (Stmt.checkAll_unparen m.statements) fun statements _ => ?_
    rw [Typed.bodyTy_unparenAll]
    exact bind_eq_map_bind_of_same fun _ _ => rfl

theorem Method.unwrapped_of_check {m : Method} {tm : Typed.Method} (passed : m.check scope = .ok tm) :
    m.Unwrapped := by
  obtain ⟨-, -, quiet, -⟩ := check_eq_ok.1 passed
  intro constructor e mem _
  exact (Stmt.anyReturnsValue_eq_false _).1 (quiet constructor) e mem

theorem Method.unparen_keepsSignature : Method.KeepsSignature Method.unparen :=
  ⟨fun _ => rfl, fun _ _ => rfl⟩

theorem Class.check_unparen {c : Class} (unwrapped : ∀ m ∈ c.methods, m.Unwrapped) :
    (c.mapMethods Method.unparen).check scope =
      (c.check scope).map (Typed.Class.mapMethods Typed.Method.unparen) := by
  rw [Class.check, Class.check]
  refine bind_eq_map_bind_of_same fun fields _ => ?_
  refine bind_eq_map_bind (mapM_map_eq_map fun m mem => Method.check_unparen (unwrapped m mem)) ?_
  exact fun _ _ => rfl

theorem programTy_unparenAll {body : List Typed.Stmt} (checked : ∀ s ∈ body, s.Checked scope) :
    programTy (Typed.Stmt.unparenAll body) = programTy body := by
  unfold programTy
  rw [Typed.Stmt.unparenAll_eq_map, List.getLast?_map]
  cases last : body.getLast? with
  | none => rfl
  | some s =>
    cases checked s (List.mem_of_getLast? last) with
    | expr checked => exact checked.ty_unparen
    | _ => rfl

/-- The checker gives a stripped program the stripped tree, and refuses it with the same error. -/
theorem Program.check_unparen {p : Program} (unwrapped : p.Unwrapped) :
    p.unparen.check = p.check.map fun r => (r.1.unparen, r.2) := by
  have outer : p.unparen.scope = p.scope := scope_mapMethods Method.unparen_keepsSignature p
  rw [Program.check, Program.check, outer]
  refine bind_eq_map_bind_of_same fun scope _ => ?_
  refine bind_eq_map_bind_of_same fun globals _ => ?_
  refine bind_eq_map_bind (mapM_map_eq_map fun c mem => Class.check_unparen (unwrapped c mem)) ?_
  intro classes _
  refine bind_eq_map_bind (Stmt.checkAll_unparen p.body) fun body passed => ?_
  rw [programTy_unparenAll (Stmt.checkAll_checked passed)]
  rfl

theorem Program.unwrapped_of_check {p : Program} {tp : Typed.Program}
    (accepted : p.check = .ok (tp, scope)) : p.Unwrapped := by
  intro c hc m hm
  obtain ⟨tm, passed⟩ := exists_check_of_mem accepted hc hm
  exact Method.unwrapped_of_check passed

end Programs

end Source
end ClassLang
