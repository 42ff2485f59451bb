/-
Command lines, word by word.

Words are read from the left, and the first one that cannot stand where it does ends the reading.
-/

namespace ClassLang
namespace CommandLine

inductive MessageFormat where
  | human
  | json
deriving Repr, DecidableEq

def MessageFormat.ofText? : String → Option MessageFormat
  | "human" => some .human
  | "json" => some .json
  | _ => none

inductive Subcommand where
  | build
  | check
  | version
deriving Repr, DecidableEq

def Subcommand.ofText? : String → Option Subcommand
  | "build" => some .build
  | "check" => some .check
  | "version" => some .version
  | _ => none

/-- What may stand on one level of a command line: before a subcommand, or after it. -/
structure Level where
  files : Nat
  output : Bool
  version : Bool
  subcommands : Bool

def Level.top : Level := { files := 1, output := true, version := true, subcommands := true }

def Subcommand.level : Subcommand → Level
  | .build => { files := 1, output := true, version := false, subcommands := false }
  | .check => { files := 1, output := false, version := false, subcommands := false }
  | .version => { files := 0, output := false, version := false, subcommands := false }

/-- What has been given on one level. -/
structure Given where
  files : List String
  output : Option String
  emitTyped : Bool
  format : Option MessageFormat
deriving Repr, DecidableEq

def Given.nothing : Given := { files := [], output := none, emitTyped := false, format := none }

/-- Why reading stops before the end. -/
inductive Stop where
  | refused
  | version
deriving Repr, DecidableEq

namespace Given

/-- Paths are never empty. -/
def addFile (level : Level) (given : Given) (file : String) : Except Stop Given :=
  if file.isEmpty || given.files.length ≥ level.files then .error .refused
  else .ok { given with files := given.files ++ [file] }

/-- No option may be given twice on one level. -/
def setOutput (given : Given) (file : String) : Except Stop Given :=
  if file.isEmpty || given.output.isSome then .error .refused
  else .ok { given with output := some file }

def setEmitTyped (given : Given) : Except Stop Given :=
  if given.emitTyped then .error .refused else .ok { given with emitTyped := true }

def setFormat (given : Given) (name : String) : Except Stop Given :=
  match MessageFormat.ofText? name with
  | some format => if given.format.isSome then .error .refused
    else .ok { given with format := some format }
  | none => .error .refused

end Given

/-- One word of a command line, on a level that takes the options it names. -/
inductive Word where
  | endOfOptions
  | version
  | emitTyped
  | output (value : Option String)
  | format (value : Option String)
  | plain (text : String)
  | unknown
deriving Repr, DecidableEq

/-- The part before the first equals sign, and the part after it if there is one. -/
def splitValue (cs : List Char) : List Char × Option String :=
  match cs.span (· ≠ '=') with
  | (name, _ :: value) => (name, some (String.ofList value))
  | (name, []) => (name, none)

/-- A word after two hyphens.  A value may follow an equals sign; a flag takes none. -/
def longWord (level : Level) (cs : List Char) : Word :=
  let (name, value) := splitValue cs
  match String.ofList name, value with
  | "output", value => if level.output then .output value else .unknown
  | "message-format", value => .format value
  | "emit-typed", none => .emitTyped
  | "version", none => if level.version then .version else .unknown
  | _, _ => .unknown

/-- A word after one hyphen.  A value may follow at once, or after an equals sign. -/
def shortWord (level : Level) : List Char → Word
  | 'o' :: value =>
    if !level.output then .unknown
    else match value with
      | [] => .output none
      | '=' :: value => .output (some (String.ofList value))
      | value => .output (some (String.ofList value))
  | 'V' :: _ => if level.version then .version else .unknown
  | _ => .unknown

/-- A lone hyphen is no option. -/
def Word.ofText (level : Level) (text : String) : Word :=
  match text.toList with
  | ['-', '-'] => .endOfOptions
  | '-' :: '-' :: cs => longWord level cs
  | ['-'] => .plain text
  | '-' :: cs => shortWord level cs
  | _ => .plain text

/-- A word of its own can be the value of the option before it unless it looks like an option. -/
def isValue (text : String) : Bool := text = "-" || !text.startsWith "-"

/-- Reads a level up to its end or to a subcommand, which comes back with the words after it. -/
def readLevel (level : Level) (given : Given) :
    List String → Except Stop (Given × Option (Subcommand × List String))
  | [] => .ok (given, none)
  | text :: rest =>
    match Word.ofText level text with
    | .endOfOptions => do return (← rest.foldlM (Given.addFile level) given, none)
    | .version => .error .version
    | .unknown => .error .refused
    | .emitTyped => do readLevel level (← given.setEmitTyped) rest
    | .output (some value) => do readLevel level (← given.setOutput value) rest
    | .format (some value) => do readLevel level (← given.setFormat value) rest
    | .output none =>
      match rest with
      | value :: rest =>
        if isValue value then do readLevel level (← given.setOutput value) rest
        else .error .refused
      | [] => .error .refused
    | .format none =>
      match rest with
      | value :: rest =>
        if isValue value then do readLevel level (← given.setFormat value) rest
        else .error .refused
      | [] => .error .refused
    | .plain text =>
      match if level.subcommands then Subcommand.ofText? text else none with
      | some sub => .ok (given, some (sub, rest))
      | none => do readLevel level (← given.addFile level text) rest

inductive Action where
  /-- Compile a file, to the path given or else to one named after it. -/
  | build (file : String) (output : Option String)
  | check (file : String)
  | version
  /-- There is nothing to do: neither a subcommand nor a file. -/
  | nothing
deriving Repr, DecidableEq

structure Options where
  action : Action
  emitTyped : Bool
  format : MessageFormat
deriving Repr, DecidableEq

/-- An output named before a subcommand is not for it.  The other options are, but what is said
after it goes first. -/
def Options.ofWords (words : List String) : Except Stop Options := do
  let (top, sub) ← readLevel .top .nothing words
  match sub with
  | none =>
    let action := match top.files with
      | file :: _ => .build file top.output
      | [] => .nothing
    return { action, emitTyped := top.emitTyped, format := top.format.getD .human }
  | some (sub, words) =>
    let (given, _) ← readLevel sub.level .nothing words
    let action ← match sub, given.files with
      | .version, _ => pure .version
      | .build, file :: _ => pure (.build file given.output)
      | .check, file :: _ => pure (.check file)
      | _, [] => throw .refused
    return {
      action
      emitTyped := top.emitTyped || given.emitTyped
      format := (given.format <|> top.format).getD .human }

end CommandLine
end ClassLang
