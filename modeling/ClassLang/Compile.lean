/-
From a program tree to the text of its module.
-/
import ClassLang.Lowering.Program
import ClassLang.Typing.Program

namespace ClassLang

/-- The answer of a new generator. -/
def Generator.answer {α : Type} (g : Generator α) : Except Error α :=
  match g.run .zero with
  | .ok value _ => .ok value
  | .error error _ => .error error

namespace Source

/-- Checks a program, lays out its classes and lowers it. -/
def Program.toModule (p : Program) : Except Error Module := do
  let (typed, scope) ← p.check
  let scope ← scope.withLayouts typed
  (typed.lower scope).answer

def Program.compile (p : Program) : Except Error String := do
  let m ← p.toModule
  return m.text

end Source

end ClassLang
