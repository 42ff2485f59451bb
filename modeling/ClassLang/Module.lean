/-
Modules: the fixed opening that all of them share, then globals and functions.
-/
import ClassLang.Code.Text
import ClassLang.Host

namespace ClassLang

structure Global where
  name : String
  init : Int32
deriving Repr, BEq

/-- A function.  Beside `locals` it has the scratch local. -/
structure Func where
  name : Option String
  exportName : Option String
  params : List String
  result : Bool
  locals : List String
  body : Code
deriving Repr, BEq

structure Module where
  globals : List Global
  functions : List Func
  entry : Func
deriving Repr, BEq

/-- Where the heap starts.  Address 0 stands for the absent object. -/
def heapStart : Int32 := 4

def entryExport : String := "exported_func"

namespace Func

/-- A function with nothing in it, to be filled in. -/
def blank : Func :=
  { name := none, exportName := none, params := [], result := false, locals := [], body := [] }

def header (f : Func) : String :=
  "(func" ++ (f.name.elim "" fun name => " $" ++ name) ++
    (f.exportName.elim "" fun name => " (export \"" ++ name ++ "\")") ++
    String.join (f.params.map fun name => " (param $" ++ name ++ " i32)") ++
    (if f.result then " (result i32)" else "")

def localLine (level : Nat) (name : String) : String :=
  line level ("(local $" ++ name ++ " i32)")

def text (level : Nat) (f : Func) : String :=
  line level f.header ++ String.join ((scratch :: f.locals).map (localLine (level + 1))) ++
    f.body.lines (level + 1) ++ line level ")"

end Func

def Host.Import.text (i : Host.Import) : String :=
  "(func $" ++ i.name ++ " (import \"" ++ i.namespaceName ++ "\" \"" ++ i.field ++ "\")" ++
    String.join (List.replicate i.params " (param i32)") ++
    (if i.returns then " (result i32)" else "") ++ ")"

def Global.text (g : Global) : String :=
  "(global $" ++ g.name ++ " (mut i32) (i32.const " ++ toString g.init ++ "))"

namespace Module

/-- The name of the format that modules are written in. -/
def format : String := "wat"

def text (m : Module) : String :=
  line 0 "(module" ++
    String.join (Host.imports.map fun i => line 1 i.text) ++
    line 1 "(import \"js\" \"mem\" (memory 1))" ++
    String.join (({ name := heap, init := heapStart } :: m.globals).map fun g => line 1 g.text) ++
    String.join (m.functions.map (·.text 1)) ++
    m.entry.text 1 ++
    line 0 ")"

end Module

end ClassLang
