/-
What names stand for inside of a method.

The names of a method hide those of the program, and the others can be read there but not assigned.
One flag tells the two apart, and the same flag tells that a method binds a name twice.  That it can
serve for both is because a class starts with no name that can be assigned, so that those which can
be are the ones that the method itself has bound.
-/
import ClassLang.Proofs.Checker.Repeats
import ClassLang.Proofs.Lowering.Shape

namespace ClassLang
namespace Scope

/-- `inner` is the scope of a method that declares these names, seen from the scope around its
class. -/
structure Encloses (outer inner : Scope) (own : List Param) : Prop where
  bound : ∀ p ∈ own, inner.vars.get? p.name = some { ty := p.ty, assignable := true } ∧
    inner.isGlobal p.name = .ok false
  seen : ∀ name ∉ own.map Param.name, ∀ binding, outer.vars.get? name = some binding →
    inner.vars.get? name = some { binding with assignable := false } ∧
      inner.isGlobal name = .ok true
  unbound : ∀ name ∉ own.map Param.name, outer.vars.get? name = none →
    inner.vars.get? name = none ∧ inner.isGlobal name = .error (.internal (.unboundVariable name))
  classes : inner.classes = outer.classes
  functions : inner.functions = outer.functions

theorem isGlobal_of_absent {scope : Scope} {name : String} (inside : scope.inMethod = true)
    (absent : scope.vars.get? name = none) :
    scope.isGlobal name = .error (.internal (.unboundVariable name)) := by
  unfold isGlobal
  simp only [inside, if_true, absent]

variable {outer inner : Scope} {cls : String} {ret : Ty} {params locals : List Param}

theorem encloses_of_enters {own : List Param}
    (enters : (outer.enterClass cls).Enters inner ret own) : outer.Encloses inner own where
  bound := fun p mem => by
    have bound := (enters.vars p.name).trans (overlay_of_mem enters.distinct mem)
    refine ⟨bound, ?_⟩
    rw [isGlobal_of_found bound, inMethod, enters.owner]
    rfl
  seen := fun name other binding found => by
    have bound : inner.vars.get? name = some { binding with assignable := false } := by
      rw [enters.vars, overlay_of_not_mem other, enterClass, Table.get?_map, found]
      rfl
    refine ⟨bound, ?_⟩
    rw [isGlobal_of_found bound, Bool.and_false]
    rfl
  unbound := fun name other absent => by
    have still : inner.vars.get? name = none := by
      rw [enters.vars, overlay_of_not_mem other, enterClass, Table.get?_map, absent]
      rfl
    refine ⟨still, isGlobal_of_absent ?_ still⟩
    rw [inMethod, enters.owner]
    rfl
  classes := enters.classes
  functions := enters.functions

/-- A method can be entered exactly if its parameters and locals, taken together, have different
names.  If they do not, the first of them that repeats an earlier one is named, as a parameter or as
a variable.  Inside, each of them is its own, every other name is what it is outside, but cannot be
assigned, and the method is looked at in the same classes and functions. -/
theorem enterMethod_encloses (outer : Scope) (cls : String) (ret : Ty)
    (params locals : List Param) :
    ((∃ inner, (outer.enterClass cls).enterMethod ret params locals = .ok inner) ↔
      ((params ++ locals).map Param.name).Nodup) ∧
    (¬((params ++ locals).map Param.name).Nodup →
      ∃ d : Declaration, d.FirstRepeat (Declaration.list params locals) ∧
        (outer.enterClass cls).enterMethod ret params locals =
          .error (.duplicateDefinition d.what d.name none)) ∧
    ∀ inner, (outer.enterClass cls).enterMethod ret params locals = .ok inner →
      outer.Encloses inner (params ++ locals) ∧ inner.returns = ret ∧ inner.owner = some cls := by
  have readOnly := outer.enterClass_readOnly cls
  refine ⟨⟨?_, exists_enterMethod readOnly⟩, fun repeated => ?_, fun inner entered => ?_⟩
  · rintro ⟨inner, entered⟩
    exact (enterMethod_enters entered).distinct
  · cases answer : (outer.enterClass cls).enterMethod ret params locals with
    | ok inner => exact absurd (enterMethod_enters answer).distinct repeated
    | error e =>
      obtain ⟨d, first, rfl⟩ := (enterMethod_eq_error readOnly).1 answer
      exact ⟨d, first, rfl⟩
  · have enters := enterMethod_enters entered
    exact ⟨encloses_of_enters enters, enters.returns, enters.owner⟩

/-- A scope of two variables. -/
def pair : Scope :=
  { Scope.empty with vars := .ofList [("g", ⟨.int, true⟩), ("h", ⟨.bool, true⟩)] }

/-- The parameter `g` hides the variable `g`, and the local `x` cannot be bound again. -/
theorem enterMethod_encloses_pair :
    (∃ inner, (pair.enterClass "C").enterMethod .int [⟨"self", .object "C"⟩, ⟨"g", .bool⟩]
        [⟨"x", .int⟩] = .ok inner ∧
      inner.vars.get? "g" = some ⟨.bool, true⟩ ∧ inner.isGlobal "g" = .ok false ∧
      inner.vars.get? "h" = some ⟨.bool, false⟩ ∧ inner.isGlobal "h" = .ok true ∧
      inner.vars.get? "y" = none ∧ ∃ e, inner.isGlobal "y" = .error e) ∧
    ∃ d : Declaration,
      d.FirstRepeat (Declaration.list [⟨"self", .object "C"⟩, ⟨"x", .bool⟩]
        [⟨"h", .int⟩, ⟨"x", .int⟩, ⟨"self", .int⟩]) ∧
      (pair.enterClass "C").enterMethod .int [⟨"self", .object "C"⟩, ⟨"x", .bool⟩]
        [⟨"h", .int⟩, ⟨"x", .int⟩, ⟨"self", .int⟩] =
          .error (.duplicateDefinition d.what d.name none) := by
  obtain ⟨entered, -, inside⟩ := enterMethod_encloses pair "C" .int
    [⟨"self", .object "C"⟩, ⟨"g", .bool⟩] [⟨"x", .int⟩]
  obtain ⟨-, repeated, -⟩ := enterMethod_encloses pair "C" .int
    [⟨"self", .object "C"⟩, ⟨"x", .bool⟩] [⟨"h", .int⟩, ⟨"x", .int⟩, ⟨"self", .int⟩]
  obtain ⟨inner, passed⟩ := entered.2 (by decide)
  obtain ⟨encloses, -, -⟩ := inside inner passed
  obtain ⟨boundG, localG⟩ := encloses.bound ⟨"g", .bool⟩ (by decide)
  obtain ⟨boundH, globalH⟩ := encloses.seen "h" (by decide) ⟨.bool, true⟩ rfl
  obtain ⟨unboundY, refusedY⟩ := encloses.unbound "y" (by decide) rfl
  exact ⟨⟨inner, passed, boundG, localG, boundH, globalH, unboundY, _, refusedY⟩,
    repeated (by decide)⟩

end Scope
end ClassLang
