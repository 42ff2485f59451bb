/-
Objects are made and never unmade, and no object changes its class.
-/
import ClassLang.Proofs.Semantics.Congruence
import Mathlib.Data.List.Infix

namespace ClassLang

/-- The classes of all objects, oldest first. -/
def World.classes (w : World) : List String := w.objects.map (·.cls)

/-- Whatever a world has, the other has too. -/
def World.Extends (w w' : World) : Prop := w.classes <+: w'.classes

theorem World.Extends.refl (w : World) : w.Extends w := List.prefix_refl _

theorem World.Extends.trans {w w' w'' : World} (h : w.Extends w') (h' : w'.Extends w'') :
    w.Extends w'' := List.IsPrefix.trans h h'

/-- The world that a run comes to, with or without a result. -/
def worldOf {α : Type} : EStateM.Result Halt World α → World
  | .ok _ w => w
  | .error _ w => w

/-- A computation that only ever adds objects. -/
def Grows {α : Type} (x : Eval α) : Prop := ∀ w : World, w.Extends (worldOf (x w))

namespace Grows

variable {α β : Type}

theorem pure (a : α) : Grows (Pure.pure a : Eval α) := fun w => .refl w

theorem throw (h : Halt) : Grows (throw h : Eval α) := fun w => .refl w

theorem bind {x : Eval α} {f : α → Eval β} (hx : Grows x) (hf : ∀ a, Grows (f a)) :
    Grows (x >>= f) := by
  intro w
  have first := hx w
  show w.Extends (worldOf (EStateM.bind x f w))
  rw [EStateM.bind]
  cases run : x w with
  | ok a w' =>
    rw [run] at first
    exact first.trans (hf a w')
  | error h w' =>
    rw [run] at first
    exact first

/-- What is reached is never behind. -/
theorem ok {x : Eval α} (h : Grows x) {w w' : World} {a : α} (run : x w = .ok a w') :
    w.Extends w' := by
  have grown := h w
  rwa [run] at grown

end Grows

/-! ## Primitives -/

theorem grows_readVar (name : String) : Grows (readVar name) := by
  intro w
  unfold readVar
  split <;> exact .refl w

theorem grows_writeVar (name : String) (v : Value) : Grows (writeVar name v) := by
  intro w
  unfold writeVar
  split
  · exact .refl w
  · split <;> exact .refl w

theorem grows_deref (v : Value) : Grows (deref v) := by
  cases v with
  | ref id => exact .pure id
  | none => exact .throw .absent
  | int _ | bool _ => exact .throw .stuck

theorem grows_readField (id : Nat) (field : String) : Grows (readField id field) := by
  intro w
  unfold readField
  split <;> exact .refl w

/-- Writing a field leaves an object the class it has. -/
theorem classes_set {w : World} {id : Nat} {obj : Object} (found : w.objects[id]? = some obj)
    (fields : Table Value) :
    (w.objects.set id { obj with fields }).map (·.cls) = w.classes := by
  rw [List.map_set, World.classes]
  refine List.ext_getElem? fun i => ?_
  rw [List.getElem?_set]
  split
  · next eq =>
    subst eq
    rw [List.length_map, List.getElem?_map, found]
    exact if_pos (List.getElem?_eq_some_iff.1 found).1
  · rfl

theorem grows_writeField (id : Nat) (field : String) (v : Value) :
    Grows (writeField id field v) := by
  intro w
  unfold writeField
  split
  · next obj found =>
    split
    · show w.classes <+: (w.objects.set id _).map (·.cls)
      rw [classes_set found]
    · exact .refl w
  · exact .refl w

theorem grows_classOf (id : Nat) : Grows (classOf id) := by
  intro w
  unfold classOf
  split <;> exact .refl w

theorem UnOp.grows_eval (op : UnOp) (v : Value) : Grows (op.eval v) := by
  unfold UnOp.eval
  split <;> first | exact .pure _ | exact .throw _

theorem grows_quotient (a b : Int32) : Grows (quotient a b) := by
  unfold quotient
  dsimp only
  split
  · exact .throw _
  · exact .pure _

theorem grows_remainder (a b : Int32) : Grows (remainder a b) := by
  unfold remainder
  split
  · exact .throw _
  · exact .pure _

theorem BinOp.grows_eval (op : BinOp) (a b : Value) : Grows (op.eval a b) := by
  unfold BinOp.eval
  split
  case h_4 => exact grows_quotient _ _
  case h_5 => exact grows_remainder _ _
  case h_14 => split <;> first | exact .pure _ | exact .throw _
  all_goals first | exact .pure _ | exact .throw _

theorem Primitive.grows {α : Type} {x : Eval α} (h : Primitive x) : Grows x := by
  cases h with
  | pure a => exact .pure a
  | throw h => exact .throw h
  | get => exact fun w => .refl w
  | setLocals locals => exact fun w => .refl w
  | add obj =>
    intro w
    show w.classes <+: (w.objects ++ [obj]).map (·.cls)
    rw [List.map_append]
    exact List.prefix_append _ _
  | readVar name => exact grows_readVar name
  | writeVar name v => exact grows_writeVar name v
  | deref v => exact grows_deref v
  | readField id field => exact grows_readField id field
  | writeField id field v => exact grows_writeField id field v
  | classOf id => exact grows_classOf id
  | record func args => exact fun w => .refl w
  | unary op v => exact op.grows_eval v
  | binary op a b => exact op.grows_eval a b

/-! ## Programs -/

theorem Grows.congruence : Congruence fun x _ => Grows x where
  primitive := Primitive.grows
  bind := Grows.bind

def Calls.Grow (call : Calls) : Prop := call.Related (fun x _ => Grows x) call

namespace Typed

section

variable {p : Program} {answers : String → List Int32 → Int32} {call : Calls}

theorem grows_callHost (name : String) (tys : List Ty) (args : List Value) :
    Grows (callHost answers name tys args) :=
  Grows.congruence.callHost name tys args

theorem grows_dispatch (grows : call.Grow) (id : Nat) (name : String) (args : List Value) :
    Grows (dispatch call id name args) :=
  Grows.congruence.dispatch grows id name args

theorem Expr.grows_eval (grows : call.Grow) (e : Expr) : Grows (e.eval p answers call) :=
  Grows.congruence.expr grows e

theorem Expr.grows_evalAll (grows : call.Grow) (es : List Expr) :
    Grows (Expr.evalAll p answers call es) :=
  Grows.congruence.exprs grows es

theorem Arm.grows_evalAlternative (grows : call.Grow) (other : Option Arm) :
    Grows (Arm.evalAlternative p answers call other) :=
  Grows.congruence.alternative grows other

theorem Stmt.grows_evalAll (grows : call.Grow) (ss : List Stmt) :
    Grows (Stmt.evalAll p answers call ss) :=
  Grows.congruence.stmts grows ss

theorem Method.grows_handBack (m : Method) (caller : Table Value) (flow : Flow) :
    Grows (m.handBack caller flow) :=
  Grows.congruence.handBack m caller flow

theorem Program.grows_invoke (grows : call.Grow) : (p.invoke answers call).Grow :=
  Grows.congruence.invoke grows

theorem Program.grows_calls (fuel : Nat) : (p.calls answers fuel).Grow := by
  induction fuel with
  | zero => exact fun _ _ _ => .throw _
  | succ fuel ih => exact Program.grows_invoke ih

/-- Running a program only ever adds objects. -/
theorem Program.grows_eval (fuel : Nat) : Grows (p.eval answers fuel) :=
  Grows.congruence.program (Program.grows_calls fuel)

end

end Typed
end ClassLang
