/-
What the host supplies: functions that every module imports, and the built-ins they stand behind.
-/
import ClassLang.Table
import ClassLang.Ty

namespace ClassLang
namespace Host

structure Import where
  name : String
  namespaceName : String
  field : String
  params : Nat
  returns : Bool
deriving Repr, DecidableEq

/-- The function to call before the absent object would be read or written.  It does not return. -/
def trapName : String := "noneClassException"

/-- A function of the ordinary namespace, imported under its own name. -/
def Import.plain (name : String) (params : Nat) : Import :=
  { name, namespaceName := "imports", field := name, params, returns := true }

/-- In the order in which a module declares them. -/
def imports : List Import :=
  [{ name := trapName, namespaceName := "additionalImports", field := trapName, params := 0,
     returns := false },
   .plain "print" 1,
   .plain "print_num" 1,
   .plain "print_bool" 1,
   .plain "print_none" 1,
   .plain "min" 2,
   .plain "abs" 1,
   .plain "max" 2,
   .plain "pow" 2]

def import? (name : String) : Option Import :=
  imports.find? (·.name = name)

/-- The import that prints a value.  Words carry no type when the program runs, so the static type
decides. -/
def printerOf : Ty → String
  | .int => "print_num"
  | .bool => "print_bool"
  | .none => "print_none"
  | .any | .object _ => "print"

/-- The built-in that takes every value. -/
def printName : String := "print"

def builtins : Table Signature :=
  .ofList
    [(printName, { params := [.any], ret := .none }),
     ("abs", { params := [.int], ret := .int }),
     ("min", { params := [.int, .int], ret := .int }),
     ("max", { params := [.int, .int], ret := .int }),
     ("pow", { params := [.int, .int], ret := .int })]

end Host
end ClassLang
