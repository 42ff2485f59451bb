/-
What tools are told about a compilation: a code and suggestions for an error, counts for a program
that passed.
-/
import ClassLang.Error
import ClassLang.Json
import ClassLang.Json.Double
import ClassLang.Typed

namespace ClassLang

structure Suggestion where
  message : String
  /-- From 0 to 1: how likely the suggestion is to help. -/
  confidence : Double
deriving Repr, DecidableEq

def Suggestion.toJson (s : Suggestion) : Json :=
  .obj [("message", .str s.message), ("confidence", .decimal s.confidence.shortest)]

structure Report where
  code : String
  family : Error.Family
  message : String
  suggestions : List Suggestion
deriving Repr, DecidableEq

namespace Error

def code : Error → String
  | .undefinedVariable _ => "E0001"
  | .notAssignableHere _ => "E0002"
  | .undefinedFunction _ => "E0003"
  | .undefinedClass _ => "E0004"
  | .unknownMethod _ _ | .unknownField _ _ => "E0005"
  | .duplicateDefinition _ _ _ => "E0006"
  | .invalidDeclaredType _ => "E0007"
  | .typeMismatch _ _ | .returnTypeMismatch _ _ | .methodReturnMismatch _ _ _ => "E0010"
  | .argumentMismatch _ _ _ _ => "E0011"
  | .argCountMismatch _ _ _ => "E0012"
  | .invalidUnaryOperand _ _ | .invalidBinaryOperands _ _ _ => "E0013"
  | .notAnObject _ _ => "E0014"
  | .nonBoolCondition _ => "E0015"
  | .malformedIf => "E0016"
  | .returnOutsideMethod => "E0020"
  | .unexpectedReturnValue _ => "E0021"
  | .missingReturn _ => "E0022"
  | .invalidSelf _ _ | .missingSelf _ _ => "E0030"
  | .constructorArity _ _ | .constructorReturnType _ _ | .constructorReturnsValue _ => "E0031"
  | .explicitConstructorCall _ => "E0032"
  | .constructorArgs _ _ => "E0033"
  | .internal _ => "E9000"

/-- Each with its confidence in tenths, in the order in which they are shown. -/
def hints : Error → List (String × Nat)
  | .undefinedVariable name => [(s!"Declare `{name}` with a type and a literal initializer", 8)]
  | .notAssignableHere name =>
    [("Globals are read-only inside methods; " ++
        s!"declare a local instead of assigning `{name}`", 7),
     ("Store the value in a field of an object instead", 4)]
  | .duplicateDefinition _ _ _ => [("Rename one of the definitions", 6)]
  | .argCountMismatch _ expected got =>
    if got < expected then [(s!"Add {expected - got} more argument(s)", 9)]
    else [(s!"Remove {got - expected} extra argument(s)", 9)]
  | .nonBoolCondition _ =>
    [("Compare the value explicitly, e.g. `x != 0` or `x is None`", 7)]
  | .unexpectedReturnValue _ => [("Annotate the method with a return type", 8)]
  | .missingReturn _ =>
    [("Add a return statement at the end of the method", 8),
     ("Give the final `if` an `else` arm that returns", 6)]
  | .invalidSelf cls _ | .missingSelf cls _ => [(s!"Make the first parameter `self: {cls}`", 9)]
  | .explicitConstructorCall cls => [(s!"Create a new object with `{cls}()`", 7)]
  | .constructorArgs _ _ =>
    [("Constructors take no arguments; assign fields after construction", 7)]
  | _ => []

def report (error : Error) : Report :=
  { code := error.code
    family := error.family
    message := error.message
    suggestions := error.hints.map fun hint => ⟨hint.1, .tenths hint.2⟩ }

namespace Family

def text : Family → String
  | .type => "type"
  | .internal => "internal"

end Family
end Error

namespace Report

/-- Puts the likeliest suggestions first; equally likely ones keep their order. -/
def ranked (r : Report) : Report :=
  { r with suggestions := r.suggestions.mergeSort fun a b => b.confidence.le a.confidence }

def toJson (r : Report) : Json :=
  .obj [("code", .str r.code), ("kind", .str r.family.text), ("message", .str r.message),
    ("suggestions", .arr (r.suggestions.map (·.toJson)))]

end Report

structure Stats where
  globals : Nat
  classes : Nat
  methods : Nat
  statements : Nat
deriving Repr, DecidableEq

/-- Statements are counted at the outermost level only. -/
def Typed.Program.stats (p : Typed.Program) : Stats :=
  { globals := p.globals.length
    classes := p.classes.length
    methods := (p.classes.flatMap (·.methods)).length
    statements := p.body.length }

def Stats.toJson (s : Stats) : Json :=
  .obj [("global_count", .int s.globals), ("class_count", .int s.classes),
    ("method_count", .int s.methods), ("statement_count", .int s.statements)]

/-- The outcome of a compilation, for tools to read. -/
structure Feedback where
  success : Bool
  file : String
  programTy : Option Ty
  diagnostics : List Report
  stats : Stats
deriving Repr, DecidableEq

namespace Feedback

def ofProgram (file : String) (p : Typed.Program) : Feedback :=
  { success := true, file, programTy := some p.ty, diagnostics := [], stats := p.stats }

def ofError (file : String) (error : Error) : Feedback :=
  { success := false, file, programTy := none, diagnostics := [error.report],
    stats := { globals := 0, classes := 0, methods := 0, statements := 0 } }

def toJson (f : Feedback) : Json :=
  .obj [("success", .bool f.success), ("source_file", .str f.file),
    ("program_type", f.programTy.elim .null fun ty => .str ty.text),
    ("diagnostics", .arr (f.diagnostics.map (·.toJson))), ("stats", f.stats.toJson)]

end Feedback

end ClassLang
