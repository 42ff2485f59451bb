/-
Programs as the text of a file.

Numbers in a file have to be in range and containers must not nest too deep, but only where they
are looked at: what stands under an unknown key of a program, a class, a method or a declaration is
passed over.  Statements and expressions are taken in whole, unknown keys and all, before anything
in them is looked at.
-/
import ClassLang.Json.Limits
import ClassLang.Json.Read
import ClassLang.Source.Json

namespace ClassLang

open Json (Shape)

def Literal.shape : Shape := .record [("tag", .whole), ("value", .whole)]

def VarDef.shape : Shape :=
  .record [("name", .whole), ("type", .whole), ("value", Literal.shape)]

def Param.shape : Shape := .record [("name", .whole), ("type", .whole)]

namespace Source

def Method.shape : Shape :=
  .record [("name", .whole), ("params", .list Param.shape), ("ret", .whole),
    ("body", .record [("definitions", .list VarDef.shape), ("statements", .whole)])]

def Class.shape : Shape :=
  .record [("name", .whole), ("fields", .list VarDef.shape), ("methods", .list Method.shape)]

def Program.shape : Shape :=
  .record [("variables", .list VarDef.shape), ("classes", .list Class.shape), ("body", .whole)]

/-- Containers in a file nest no deeper than this. -/
def nestingLimit : Nat := 127

def Program.ofText? (text : String) : Option Program := do
  let j ← Json.read? text
  let seen := j.trim Program.shape
  if seen.nestsWithin nestingLimit && seen.numbersFit then Program.ofJson? seen else none

end Source
end ClassLang
