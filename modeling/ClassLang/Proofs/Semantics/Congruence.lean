/-
Relations that evaluation keeps to.

The evaluator puts a few primitives one after another, and reaches methods through their calls alone.
So two evaluations of a form are in a relation if their calls are, provided that primitives are and
that sequences are where their parts are.
-/
import ClassLang.Proofs.Semantics.Eval

namespace ClassLang

/-- What the evaluator does in one go. -/
inductive Primitive : {α : Type} → Eval α → Prop
  | pure {α : Type} (a : α) : Primitive (Pure.pure a)
  | throw {α : Type} (h : Halt) : Primitive (throw h : Eval α)
  | get : Primitive (get : Eval World)
  | setLocals (locals : Table Value) : Primitive (modify fun w => { w with locals } : Eval Unit)
  | add (obj : Object) :
    Primitive (modify fun w => { w with objects := w.objects ++ [obj] } : Eval Unit)
  | readVar (name : String) : Primitive (readVar name)
  | writeVar (name : String) (v : Value) : Primitive (writeVar name v)
  | deref (v : Value) : Primitive (deref v)
  | readField (id : Nat) (field : String) : Primitive (readField id field)
  | writeField (id : Nat) (field : String) (v : Value) : Primitive (writeField id field v)
  | classOf (id : Nat) : Primitive (classOf id)
  | record (func : String) (args : List Value) : Primitive (record func args)
  | unary (op : UnOp) (v : Value) : Primitive (op.eval v)
  | binary (op : BinOp) (a b : Value) : Primitive (op.eval a b)

structure Congruence (R : {α : Type} → Eval α → Eval α → Prop) : Prop where
  primitive {α : Type} {x : Eval α} (h : Primitive x) : R x x
  bind {α β : Type} {x y : Eval α} {f g : α → Eval β} (first : R x y)
    (rest : ∀ a, R (f a) (g a)) : R (x >>= f) (y >>= g)

def Calls.Related (R : {α : Type} → Eval α → Eval α → Prop) (call call' : Calls) : Prop :=
  ∀ cls name args, R (call cls name args) (call' cls name args)

namespace Congruence

open Typed

variable {R : {α : Type} → Eval α → Eval α → Prop} {p : Program}
  {answers : String → List Int32 → Int32} {call call' : Calls}

/-! ## Expressions -/

theorem callHost (h : Congruence R) (name : String) (tys : List Ty) (args : List Value) :
    R (callHost answers name tys args) (Typed.callHost answers name tys args) := by
  refine h.bind (h.primitive (.record _ args)) fun _ => ?_
  split
  · exact h.primitive (.pure _)
  · split
    · exact h.primitive (.pure _)
    · exact h.primitive (.throw _)

theorem makeObject (h : Congruence R) (calls : call.Related R call') (cls : String) :
    R (makeObject p call cls) (Typed.makeObject p call' cls) := by
  unfold Typed.makeObject
  split
  · exact h.primitive (.throw _)
  · next c _ =>
    refine h.bind (h.primitive .get) fun w => h.bind (h.primitive (.add c.blank)) fun _ => ?_
    split
    · exact h.bind (calls _ _ _) fun _ => h.primitive (.pure _)
    · exact h.primitive (.pure _)

theorem dispatch (h : Congruence R) (calls : call.Related R call') (id : Nat) (name : String)
    (args : List Value) : R (dispatch call id name args) (Typed.dispatch call' id name args) :=
  h.bind (h.primitive (.classOf id)) fun cls => calls cls name _

mutual

theorem expr (h : Congruence R) (calls : call.Related R call') (e : Expr) :
    R (e.eval p answers call) (e.eval p answers call') := by
  cases e with
  | literal ty value => exact h.primitive (.pure _)
  | id ty name => exact h.primitive (.readVar name)
  | unary ty op arg => exact h.bind (expr h calls arg) fun v => h.primitive (.unary op v)
  | binary ty op lhs rhs =>
    exact h.bind (expr h calls lhs) fun a => h.bind (expr h calls rhs) fun b =>
      h.primitive (.binary op a b)
  | paren ty arg => exact expr h calls arg
  | call ty name args => exact h.bind (exprs h calls args) (h.callHost name _)
  | construct ty cls => exact h.makeObject calls cls
  | methodCall ty obj name args =>
    exact h.bind (expr h calls obj) fun o => h.bind (h.primitive (.deref o)) fun id =>
      h.bind (exprs h calls args) (h.dispatch calls id name)
  | field ty obj name =>
    exact h.bind (expr h calls obj) fun o => h.bind (h.primitive (.deref o)) fun id =>
      h.primitive (.readField id name)

theorem exprs (h : Congruence R) (calls : call.Related R call') (es : List Expr) :
    R (Expr.evalAll p answers call es) (Expr.evalAll p answers call' es) := by
  cases es with
  | nil => exact h.primitive (.pure _)
  | cons e rest =>
    exact h.bind (expr h calls e) fun _ => h.bind (exprs h calls rest) fun _ =>
      h.primitive (.pure _)

end

/-! ## Statements -/

theorem target (h : Congruence R) (target : LValue) : R target.eval target.eval := by
  induction target with
  | var ty name => exact h.primitive (.readVar name)
  | field ty obj name ih =>
    exact h.bind ih fun o => h.bind (h.primitive (.deref o)) fun id =>
      h.primitive (.readField id name)

theorem assign (h : Congruence R) (calls : call.Related R call') (target : LValue)
    (value : Expr) :
    R (target.assign p answers call value) (target.assign p answers call' value) := by
  cases target with
  | var ty name => exact h.bind (h.expr calls value) fun v => h.primitive (.writeVar name v)
  | field ty obj name =>
    exact h.bind (h.target obj) fun o => h.bind (h.primitive (.deref o)) fun id =>
      h.bind (h.expr calls value) fun v => h.primitive (.writeField id name v)

mutual

theorem stmt (h : Congruence R) (calls : call.Related R call') (s : Stmt) :
    R (s.eval p answers call) (s.eval p answers call') := by
  cases s with
  | assign ty lhs value => exact h.bind (h.assign calls lhs value) fun _ => h.primitive (.pure _)
  | expr ty e => exact h.bind (h.expr calls e) fun _ => h.primitive (.pure _)
  | ret ty value =>
    cases value with
    | none => exact h.primitive (.pure _)
    | some e => exact h.bind (h.expr calls e) fun _ => h.primitive (.pure _)
  | branch ty a => exact arm h calls a
  | pass ty => exact h.primitive (.pure _)

theorem arm (h : Congruence R) (calls : call.Related R call') (a : Arm) :
    R (a.eval p answers call) (a.eval p answers call') := by
  cases a with
  | mk ty condition body other =>
    cases condition with
    | none => exact stmts h calls body
    | some e =>
      refine h.bind (h.expr calls e) fun v => ?_
      split
      · exact stmts h calls body
      · exact alternative h calls other
      · exact h.primitive (.throw _)

theorem alternative (h : Congruence R) (calls : call.Related R call') (other : Option Arm) :
    R (Arm.evalAlternative p answers call other) (Arm.evalAlternative p answers call' other) := by
  cases other with
  | none => exact h.primitive (.pure _)
  | some a => exact arm h calls a

theorem stmts (h : Congruence R) (calls : call.Related R call') (ss : List Stmt) :
    R (Stmt.evalAll p answers call ss) (Stmt.evalAll p answers call' ss) := by
  cases ss with
  | nil => exact h.primitive (.pure _)
  | cons s rest =>
    refine h.bind (stmt h calls s) fun flow => ?_
    split
    · exact stmts h calls rest
    · exact h.primitive (.pure _)

end

/-! ## Methods and programs -/

theorem handBack (h : Congruence R) (m : Method) (caller : Table Value) (flow : Flow) :
    R (m.handBack caller flow) (m.handBack caller flow) := by
  refine h.bind (h.primitive (.setLocals caller)) fun _ => ?_
  split
  · exact h.primitive (.pure _)
  · exact h.primitive (.pure _)
  · exact h.primitive (.pure _)

theorem invoke (h : Congruence R) (calls : call.Related R call') :
    (p.invoke answers call).Related R (p.invoke answers call') := by
  intro cls name args
  unfold Program.invoke
  split
  · next m _ =>
    split
    · refine h.bind (h.primitive .get) fun w => h.bind (h.primitive (.setLocals _)) fun _ => ?_
      exact h.bind (h.stmts calls m.statements) (h.handBack m w.locals)
    · exact h.primitive (.throw _)
  · exact h.primitive (.throw _)

variable {fuel fuel' : Nat}

theorem perform (h : Congruence R)
    (calls : (p.calls answers fuel).Related R (p.calls answers fuel')) (ss : List Stmt) :
    R (p.perform answers fuel ss) (p.perform answers fuel' ss) := by
  refine h.bind (h.stmts calls ss) fun flow => ?_
  split
  · exact h.primitive (.pure _)
  · exact h.primitive (.throw _)

theorem program (h : Congruence R)
    (calls : (p.calls answers fuel).Related R (p.calls answers fuel')) :
    R (p.eval answers fuel) (p.eval answers fuel') := by
  unfold Program.eval
  split
  · next ty e _ =>
    refine h.bind (h.perform calls _) fun _ => ?_
    exact h.bind (h.expr calls e) fun _ => h.primitive (.pure _)
  · exact h.bind (h.perform calls _) fun _ => h.primitive (.pure _)

end Congruence
end ClassLang
