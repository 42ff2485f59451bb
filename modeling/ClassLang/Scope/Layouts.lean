/-
Giving every class of a checked program its layout.
-/
import ClassLang.Scope
import ClassLang.Typed

namespace ClassLang

def Typed.Class.layout (c : Typed.Class) : Layout :=
  { fields := c.fields.map (·.name) }

namespace Scope

def setLayout (scope : Scope) (c : Typed.Class) : Except Error Scope :=
  match scope.classes.get? c.name with
  | none => .error (.internal (.missingClass c.name))
  | some info =>
    .ok { scope with classes := scope.classes.insert c.name { info with layout := some c.layout } }

def withLayouts (scope : Scope) (p : Typed.Program) : Except Error Scope :=
  p.classes.foldlM setLayout scope

end Scope

end ClassLang
