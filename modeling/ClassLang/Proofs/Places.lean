/-
Where the expressions of a checked program stand.

A place says which way leads from the outside in: into which part, then into which part of that
part, and so on.  The listing of all expressions, which goes through the trees on its own, has the
expression of each place where there is one, and has them in the order of their places.  Places are
ordered as words are in a dictionary: what encloses comes before what is enclosed, and an earlier
part with all that is in it before a later one.
-/
import ClassLang.Proofs.Lowering.Module
import ClassLang.Proofs.Semantics.Eval
import ClassLang.Typed.Expressions

namespace ClassLang
namespace Typed

/-! ## Parts -/

/-- The expressions right inside an expression, in the order in which they are evaluated. -/
def Expr.parts : Expr → List Expr
  | .literal _ _ | .id _ _ | .construct _ _ => []
  | .unary _ _ arg | .paren _ arg | .field _ arg _ => [arg]
  | .binary _ _ lhs rhs => [lhs, rhs]
  | .call _ _ args => args
  | .methodCall _ obj _ args => obj :: args

/-- What a program is made of, as far as expressions stand in it. -/
inductive Node where
  | program (p : Program)
  | cls (c : Class)
  | method (m : Method)
  | stmt (s : Stmt)
  | arm (a : Arm)
  | expr (e : Expr)

namespace Node

/-- What is right inside, in the order in which it runs.  The target of an assignment is no
expression. -/
def parts : Node → List Node
  | .program p => p.body.map .stmt ++ p.classes.map .cls
  | .cls c => c.methods.map .method
  | .method m => m.statements.map .stmt
  | .stmt (.assign _ _ value) => [.expr value]
  | .stmt (.expr _ e) => [.expr e]
  | .stmt (.ret _ value) => value.toList.map .expr
  | .stmt (.branch _ a) => [.arm a]
  | .stmt (.pass _) => []
  | .arm (.mk _ condition body alternative) =>
    condition.toList.map .expr ++ (body.map .stmt ++ alternative.toList.map .arm)
  | .expr e => e.parts.map .expr

def expr? : Node → Option Expr
  | .expr e => some e
  | _ => none

/-- What is found at a place.  Each number says which part to go into. -/
def at? : Node → List Nat → Option Node
  | n, [] => some n
  | n, i :: rest => n.parts[i]?.bind fun part => part.at? rest
termination_by structural _ place => place

def exprAt? (n : Node) (place : List Nat) : Option Expr := (n.at? place).bind expr?

theorem exprAt?_nil (n : Node) : n.exprAt? [] = n.expr? := rfl

theorem exprAt?_cons (n : Node) (i : Nat) (rest : List Nat) :
    n.exprAt? (i :: rest) = n.parts[i]?.bind fun part => part.exprAt? rest := by
  rw [exprAt?, at?, Option.bind_assoc]
  rfl

end Node

/-! ### Induction -/

/-- What a node has if all its parts have it. -/
def Node.Rises (P : Node → Prop) : Prop := ∀ n : Node, (∀ part ∈ n.parts, P part) → P n

section

variable {P : Node → Prop}

mutual

theorem Expr.of_parts (rises : Node.Rises P) (e : Expr) : P (.expr e) := by
  refine rises _ (List.forall_mem_map.2 ?_)
  cases e with
  | literal | id | construct => exact List.forall_mem_nil _
  | unary ty op arg | paren ty arg | field ty arg name =>
    exact List.forall_mem_singleton.2 (Expr.of_parts rises arg)
  | binary ty op lhs rhs =>
    exact List.forall_mem_cons.2
      ⟨Expr.of_parts rises lhs, List.forall_mem_singleton.2 (Expr.of_parts rises rhs)⟩
  | call ty name args => exact Expr.all_of_parts rises args
  | methodCall ty obj name args =>
    exact List.forall_mem_cons.2 ⟨Expr.of_parts rises obj, Expr.all_of_parts rises args⟩

theorem Expr.all_of_parts (rises : Node.Rises P) (es : List Expr) : ∀ e ∈ es, P (.expr e) := by
  cases es with
  | nil => exact List.forall_mem_nil _
  | cons e rest =>
    exact List.forall_mem_cons.2 ⟨Expr.of_parts rises e, Expr.all_of_parts rises rest⟩

end

theorem Expr.optional_of_parts (rises : Node.Rises P) (value : Option Expr) :
    ∀ n ∈ value.toList.map Node.expr, P n :=
  List.forall_mem_map.2 fun e _ => Expr.of_parts rises e

mutual

theorem Stmt.of_parts (rises : Node.Rises P) (s : Stmt) : P (.stmt s) := by
  refine rises _ ?_
  cases s with
  | assign ty lhs value => exact List.forall_mem_singleton.2 (Expr.of_parts rises value)
  | expr ty e => exact List.forall_mem_singleton.2 (Expr.of_parts rises e)
  | ret ty value => exact Expr.optional_of_parts rises value
  | branch ty a => exact List.forall_mem_singleton.2 (Arm.of_parts rises a)
  | pass ty => exact List.forall_mem_nil _

theorem Arm.of_parts (rises : Node.Rises P) (a : Arm) : P (.arm a) := by
  refine rises _ ?_
  cases a with
  | mk ty condition body alternative =>
    refine List.forall_mem_append.2 ⟨Expr.optional_of_parts rises condition,
      List.forall_mem_append.2 ⟨List.forall_mem_map.2 (Stmt.all_of_parts rises body), ?_⟩⟩
    cases alternative with
    | none => exact List.forall_mem_nil _
    | some a => exact List.forall_mem_singleton.2 (Arm.of_parts rises a)

theorem Stmt.all_of_parts (rises : Node.Rises P) (ss : List Stmt) : ∀ s ∈ ss, P (.stmt s) := by
  cases ss with
  | nil => exact List.forall_mem_nil _
  | cons s rest =>
    exact List.forall_mem_cons.2 ⟨Stmt.of_parts rises s, Stmt.all_of_parts rises rest⟩

end

theorem Method.of_parts (rises : Node.Rises P) (m : Method) : P (.method m) :=
  rises _ (List.forall_mem_map.2 fun s _ => Stmt.of_parts rises s)

theorem Class.of_parts (rises : Node.Rises P) (c : Class) : P (.cls c) :=
  rises _ (List.forall_mem_map.2 fun m _ => Method.of_parts rises m)

/-- What holds of a node if it holds of its parts holds of every node. -/
theorem Node.of_parts (rises : Node.Rises P) (n : Node) : P n := by
  cases n with
  | program p =>
    exact rises _ (List.forall_mem_append.2
      ⟨List.forall_mem_map.2 fun s _ => Stmt.of_parts rises s,
        List.forall_mem_map.2 fun c _ => Class.of_parts rises c⟩)
  | cls c => exact Class.of_parts rises c
  | method m => exact Method.of_parts rises m
  | stmt s => exact Stmt.of_parts rises s
  | arm a => exact Arm.of_parts rises a
  | expr e => exact Expr.of_parts rises e

end

/-! ## Listings -/

theorem Expr.allOf_eq_flatMap (es : List Expr) : Expr.allOf es = es.flatMap Expr.all := by
  induction es with
  | nil => rfl
  | cons e rest ih => rw [Expr.allOf, ih, List.flatMap_cons]

/-- An expression is listed before its parts. -/
theorem Expr.all_eq (e : Expr) : e.all = e :: e.parts.flatMap Expr.all := by
  cases e with
  | literal | id | construct => rfl
  | unary | paren | field => rw [Expr.all, parts, List.flatMap_singleton]
  | binary => rw [Expr.all, parts, List.flatMap_cons, List.flatMap_singleton]
  | call => rw [Expr.all, parts, Expr.allOf_eq_flatMap]
  | methodCall => rw [Expr.all, parts, List.flatMap_cons, Expr.allOf_eq_flatMap]

theorem Stmt.exprsOf_eq_flatMap (ss : List Stmt) : Stmt.exprsOf ss = ss.flatMap Stmt.exprs := by
  induction ss with
  | nil => rfl
  | cons s rest ih => rw [Stmt.exprsOf, ih, List.flatMap_cons]

theorem Arm.alternativeExprs_eq_flatMap (alternative : Option Arm) :
    Arm.alternativeExprs alternative = alternative.toList.flatMap Arm.exprs := by
  cases alternative with
  | none => rfl
  | some a => exact (List.flatMap_singleton Arm.exprs a).symm

namespace Node

/-- What is listed of a node. -/
def exprs : Node → List Expr
  | .program p => p.expressions
  | .cls c => c.methods.flatMap fun m => Stmt.exprsOf m.statements
  | .method m => Stmt.exprsOf m.statements
  | .stmt s => s.exprs
  | .arm a => a.exprs
  | .expr e => e.all

/-- First the node itself, if it is an expression, and then its parts. -/
theorem exprs_eq (n : Node) : n.exprs = n.expr?.toList ++ n.parts.flatMap exprs := by
  cases n with
  | program p =>
    show p.expressions = (p.body.map stmt ++ p.classes.map cls).flatMap exprs
    rw [Program.expressions, List.flatMap_append, List.flatMap_map, List.flatMap_map,
      Stmt.exprsOf_eq_flatMap]
    rfl
  | cls c => exact (List.flatMap_map method exprs c.methods).symm
  | method m => exact (Stmt.exprsOf_eq_flatMap _).trans (List.flatMap_map stmt exprs _).symm
  | stmt s =>
    cases s with
    | assign ty lhs value => exact (List.flatMap_singleton exprs (.expr value)).symm
    | expr ty e => exact (List.flatMap_singleton exprs (.expr e)).symm
    | ret ty value => exact (Expr.allOf_eq_flatMap _).trans (List.flatMap_map expr exprs _).symm
    | branch ty a => exact (List.flatMap_singleton exprs (.arm a)).symm
    | pass ty => rfl
  | arm a =>
    cases a with
    | mk ty condition body alternative =>
      show Arm.exprs (.mk ty condition body alternative) = (condition.toList.map expr ++
        (body.map stmt ++ alternative.toList.map arm)).flatMap exprs
      simp only [List.flatMap_append, List.flatMap_map]
      rw [Arm.exprs, Expr.allOf_eq_flatMap, Stmt.exprsOf_eq_flatMap,
        Arm.alternativeExprs_eq_flatMap]
      rfl
  | expr e => exact e.all_eq.trans (congrArg (e :: ·) (List.flatMap_map expr exprs e.parts).symm)

end Node

/-! ## Places of what is listed -/

/-- These are the expressions that stand somewhere: each stands at a place of its own, there are no
others, and they come in the order of their places. -/
def Placed (stands : List Nat → Expr → Prop) (es : List Expr) : Prop :=
  ∃ placed : List (List Nat × Expr), placed.map Prod.snd = es ∧
    placed.Pairwise (fun a b => a.1 < b.1) ∧ ∀ place e, (place, e) ∈ placed ↔ stands place e

namespace Placed

variable {stands stands' : List Nat → Expr → Prop} {es es' : List Expr}

theorem congr (placed : Placed stands es) (same : ∀ place e, stands place e ↔ stands' place e) :
    Placed stands' es := by
  obtain ⟨entries, listed, sorted, standing⟩ := placed
  exact ⟨entries, listed, sorted, fun place e => (standing place e).trans (same place e)⟩

theorem none : Placed (fun _ _ => False) [] :=
  ⟨[], rfl, .nil, fun _ _ => List.mem_nil_iff _⟩

theorem here (self : Option Expr) :
    Placed (fun place e => place = [] ∧ self = some e) self.toList := by
  cases self with
  | none => exact none.congr fun _ _ => ⟨False.elim, fun h => nomatch h.2⟩
  | some e =>
    refine ⟨[([], e)], rfl, List.pairwise_singleton _ _, fun place e' => ?_⟩
    rw [List.mem_singleton, Prod.mk.injEq]
    exact and_congr_right fun _ => by rw [Option.some.injEq, eq_comm]

theorem inside (placed : Placed stands es) (k : Nat) :
    Placed (fun place e => ∃ rest, place = k :: rest ∧ stands rest e) es := by
  obtain ⟨entries, listed, sorted, standing⟩ := placed
  refine ⟨entries.map (Prod.map (k :: ·) id), ?_, ?_, fun place e => ?_⟩
  · rw [List.map_map, ← listed]
    rfl
  · refine List.pairwise_map.2 (sorted.imp fun before => ?_)
    exact List.cons_lt_cons_iff.2 (.inr ⟨rfl, before⟩)
  · constructor
    · intro mem
      obtain ⟨⟨rest, e'⟩, found, eq⟩ := List.mem_map.1 mem
      cases eq
      exact ⟨rest, rfl, (standing rest e').1 found⟩
    · rintro ⟨rest, rfl, there⟩
      exact List.mem_map.2 ⟨(rest, e), (standing rest e).2 there, rfl⟩

theorem append (placed : Placed stands es) (placed' : Placed stands' es')
    (before : ∀ a e b e', stands a e → stands' b e' → a < b) :
    Placed (fun place e => stands place e ∨ stands' place e) (es ++ es') := by
  obtain ⟨entries, rfl, sorted, standing⟩ := placed
  obtain ⟨entries', rfl, sorted', standing'⟩ := placed'
  refine ⟨entries ++ entries', List.map_append, ?_, fun place e => ?_⟩
  · refine List.pairwise_append.2 ⟨sorted, sorted', fun a mem b mem' => ?_⟩
    exact before _ _ _ _ ((standing a.1 a.2).1 mem) ((standing' b.1 b.2).1 mem')
  · rw [List.mem_append, standing, standing']

end Placed

namespace Node

/-- What stands in some nodes, the first of which is part number `k` of something. -/
theorem placed_parts {ns : List Node}
    (placed : ∀ n ∈ ns, Placed (fun place e => n.exprAt? place = some e) n.exprs) (k : Nat) :
    Placed (fun place e => ∃ i rest, place = (k + i) :: rest ∧
      ns[i]?.bind (fun n => n.exprAt? rest) = some e) (ns.flatMap exprs) := by
  -- What comes after the first node is numbered from `k + 1`, so it stands behind what is in it.
  induction ns generalizing k with
  | nil => exact Placed.none.congr fun _ _ => ⟨False.elim, fun ⟨_, _, _, found⟩ => nomatch found⟩
  | cons n ns ih =>
    obtain ⟨first, others⟩ := List.forall_mem_cons.1 placed
    refine ((first.inside k).append (ih others (k + 1)) ?_).congr fun place e => ?_
    · rintro _ _ _ _ ⟨_, rfl, -⟩ ⟨i, _, rfl, -⟩
      exact List.cons_lt_cons_iff.2 (.inl (by omega))
    · constructor
      · rintro (⟨rest, rfl, found⟩ | ⟨i, rest, rfl, found⟩)
        · exact ⟨0, rest, rfl, found⟩
        · exact ⟨i + 1, rest, by rw [Nat.add_right_comm, Nat.add_assoc], found⟩
      · rintro ⟨i, rest, rfl, found⟩
        cases i with
        | zero => exact .inl ⟨rest, rfl, found⟩
        | succ i => exact .inr ⟨i, rest, by rw [Nat.add_right_comm, Nat.add_assoc], found⟩

theorem placed_rises : Rises fun n => Placed (fun place e => n.exprAt? place = some e) n.exprs := by
  intro n parts
  show Placed (fun place e => n.exprAt? place = some e) n.exprs
  rw [exprs_eq]
  refine ((Placed.here n.expr?).append (placed_parts parts 0) ?_).congr fun place e => ?_
  · rintro _ _ _ _ ⟨rfl, -⟩ ⟨_, _, rfl, -⟩
    exact List.nil_lt_cons _ _
  · cases place with
    | nil =>
      rw [exprAt?_nil]
      constructor
      · rintro (⟨-, self⟩ | ⟨_, _, eq, -⟩)
        · exact self
        · cases eq
      · exact fun self => .inl ⟨rfl, self⟩
    | cons i rest =>
      rw [exprAt?_cons]
      constructor
      · rintro (⟨eq, -⟩ | ⟨j, _, eq, found⟩)
        · cases eq
        · rw [Nat.zero_add] at eq
          cases eq
          exact found
      · exact fun found => .inr ⟨i, rest, by rw [Nat.zero_add], found⟩

theorem placed (n : Node) : Placed (fun place e => n.exprAt? place = some e) n.exprs :=
  of_parts placed_rises n

end Node

/-! ## The order of evaluation -/

section

variable (p : Program) (answers : String → List Int32 → Int32) (call : Calls)

/-- What is left to do for an expression when its parts have values. -/
def Expr.finish : Expr → List Value → Eval Value
  | .literal _ value, [] => pure value.value
  | .id _ name, [] => readVar name
  | .unary _ op _, [a] => op.eval a
  | .binary _ op _ _, [a, b] => op.eval a b
  | .paren _ _, [a] => pure a
  | .call _ name args, vs => callHost answers name (args.map Expr.ty) vs
  | .construct _ cls, [] => makeObject p call cls
  | .methodCall _ _ name _, o :: vs => do
    let id ← deref o
    dispatch call id name vs
  | .field _ _ name, [o] => do
    let id ← deref o
    readField id name
  | _, _ => throw .stuck

variable {p answers call}

theorem Expr.evalAll_nil_bind {β : Type} (next : List Value → Eval β) :
    Expr.evalAll p answers call [] >>= next = next [] := by
  rw [Expr.evalAll, pure_bind]

theorem Expr.evalAll_cons_bind {β : Type} (e : Expr) (rest : List Expr)
    (next : List Value → Eval β) :
    Expr.evalAll p answers call (e :: rest) >>= next =
      e.eval p answers call >>= fun v => Expr.evalAll p answers call rest >>= fun vs =>
        next (v :: vs) := by
  simp only [Expr.evalAll, bind_assoc, pure_bind]

theorem run_deref_eq_ok {o : Value} {id : Nat} {w w' : World} :
    (deref o).run w = .ok id w' ↔ o = .ref id ∧ w = w' := by
  cases o with
  | ref id' => rw [deref, run_pure_eq_ok, Value.ref.injEq]
  | _ => exact ⟨nofun, nofun⟩

/-- An expression has a value if its parts, evaluated one after the other, have values from which it
is finished.  Only a call of a method looks at the value of a part, the receiver, before it goes on
to the next one. -/
theorem Expr.run_eval_eq_ok (e : Expr) (w w' : World) (v : Value) :
    (e.eval p answers call).run w = .ok v w' ↔
      (Expr.evalAll p answers call e.parts >>= e.finish p answers call).run w = .ok v w' := by
  cases e with
  | literal | id | construct => rw [parts, evalAll_nil_bind, Expr.eval, finish]
  | unary ty op arg | paren ty arg | field ty obj name =>
    simp only [parts, evalAll_cons_bind, evalAll_nil_bind, Expr.eval, finish, bind_pure]
  | binary ty op lhs rhs =>
    simp only [parts, evalAll_cons_bind, evalAll_nil_bind, Expr.eval, finish]
  | call ty name args =>
    rw [parts, Expr.eval]
    rfl
  | methodCall ty obj name args =>
    -- The receiver is looked at early, but that changes nothing in the world.
    simp only [parts, evalAll_cons_bind, Expr.eval, finish, run_bind_eq_ok, run_deref_eq_ok]
    constructor
    · rintro ⟨o, t, receiver, id, _, ⟨rfl, rfl⟩, vs, u, passed, called⟩
      exact ⟨.ref id, t, receiver, vs, u, passed, id, u, ⟨rfl, rfl⟩, called⟩
    · rintro ⟨o, t, receiver, vs, u, passed, id, _, ⟨rfl, rfl⟩, called⟩
      exact ⟨.ref id, t, receiver, id, t, ⟨rfl, rfl⟩, vs, u, passed, called⟩

end

/-- Each occurrence of an expression in a program is listed once, and nothing else is.  What is
listed comes in the order of the places where it stands, so an expression before its parts, and one
part with all that is in it before the next.  The parts of an expression are in the order in which
they are evaluated: it has a value exactly if they, one after the other, have values from which it
is finished. -/
theorem Program.expressions_placed (p : Program) :
    (∃ placed : List (List Nat × Expr), placed.map Prod.snd = p.expressions ∧
      placed.Pairwise (fun a b => a.1 < b.1) ∧
        ∀ place e, (place, e) ∈ placed ↔ (Node.program p).exprAt? place = some e) ∧
    ∀ (answers : String → List Int32 → Int32) (call : Calls) (e : Expr) (w w' : World) (v : Value),
      (e.eval p answers call).run w = .ok v w' ↔
        (Expr.evalAll p answers call e.parts >>= e.finish p answers call).run w = .ok v w' :=
  ⟨Node.placed (.program p), fun _ _ => Expr.run_eval_eq_ok⟩

end Typed
end ClassLang
