/-
What a command does: what it prints, which files it reads and writes, and how it exits.
-/
import ClassLang.CommandLine.Options
import ClassLang.CommandLine.Path
import ClassLang.Compile
import ClassLang.Json.Write
import ClassLang.Report
import ClassLang.Source.Text
import ClassLang.Typed.Json

namespace ClassLang
namespace CommandLine

/-- Access to files.  A failure is described in the words of the system. -/
class Storage (m : Type → Type) where
  read : String → m (Except String String)
  write : String → String → m (Except String Unit)

/-- What a command leaves behind, beside files. -/
structure Outcome where
  exit : Nat
  stdout : String
  stderr : String
deriving Repr, DecidableEq

/-- What a command has printed so far. -/
structure Transcript where
  stdout : String
  stderr : String

def Transcript.say (t : Transcript) (text : String) : Transcript :=
  { t with stdout := t.stdout ++ text ++ "\n" }

def Transcript.complain (t : Transcript) (text : String) : Transcript :=
  { t with stderr := t.stderr ++ text ++ "\n" }

def Transcript.blank : Transcript := ⟨"", ""⟩

def Transcript.finish (t : Transcript) (exit : Nat) : Outcome := ⟨exit, t.stdout, t.stderr⟩

/-- The text that a build writes. -/
def Options.product (o : Options) (p : Source.Program) : Except Error String := do
  if o.emitTyped then
    let (typed, _) ← p.check
    return typed.toJson.pretty 0
  p.compile

def Options.extension (o : Options) : String := if o.emitTyped then "typed.json" else Module.format

/-- Says why a program was refused. -/
def refuse (o : Options) (file : String) (t : Transcript) (error : Error) : Outcome :=
  match o.format with
  | .human => (t.complain error.message).finish 1
  | .json => (t.say ((Feedback.ofError file error).toJson.pretty 0)).finish 1

def accept (o : Options) (file : String) (output : String) (typed : Typed.Program)
    (t : Transcript) : Outcome :=
  match o.format, o.emitTyped with
  | .human, true => (t.say s!"  [✓] Wrote typed tree to {output}").finish 0
  | .human, false => (t.say s!"\n✅ Output: {output}").finish 0
  | .json, true => t.finish 0
  | .json, false => (t.say ((Feedback.ofProgram file typed).toJson.pretty 0)).finish 0

variable {m : Type → Type} [Monad m] [Storage m]

/-- Reads the program in a file. -/
def readProgram (file : String) (t : Transcript) : m (Except Outcome Source.Program) := do
  match ← Storage.read file with
  | .error reason => return .error ((t.complain s!"Error: reading {file}: {reason}").finish 1)
  | .ok text =>
    match Source.Program.ofText? text with
    | none => return .error ((t.complain s!"Error: parsing program tree in {file}").finish 1)
    | some p => return .ok p

def build (o : Options) (file : String) (output : Option String) : m Outcome := do
  let human := o.format = .human
  let t := if human then Transcript.blank.say s!"Compiling: {file}" else .blank
  match ← readProgram file t with
  | .error outcome => return outcome
  | .ok p =>
    match p.check with
    | .error error => return refuse o file t error
    | .ok (typed, _) =>
      let t := if human then
          t.say s!"  [✓] Type check passed (program type {typed.ty.text})" else t
      match o.product p with
      | .error error => return refuse o file t error
      | .ok text =>
        let output := output.getD (withExtension file o.extension)
        match ← Storage.write output text with
        | .error reason => return (t.complain s!"Error: writing {output}: {reason}").finish 1
        | .ok () => return accept o file output typed t

def check (o : Options) (file : String) : m Outcome := do
  match ← readProgram file .blank with
  | .error outcome => return outcome
  | .ok p =>
    match p.check, o.format with
    | .error error, _ => return refuse o file .blank error
    | .ok (typed, _), .human =>
      return (Transcript.blank.say s!"Program type: {typed.ty.text}").finish 0
    | .ok (typed, _), .json =>
      return (Transcript.blank.say ((Feedback.ofProgram file typed).toJson.pretty 0)).finish 0

def versionLine : String := "pywatc 0.1.0"

/-- Runs a command line. -/
def run (words : List String) : m Outcome := do
  match Options.ofWords words with
  | .error .refused => return Transcript.blank.finish 2
  | .error .version => return (Transcript.blank.say versionLine).finish 0
  | .ok o =>
    match o.action with
    | .build file output => build o file output
    | .check file => check o file
    | .version =>
      return (((Transcript.blank.say versionLine).say
        "Typed Python subset to WebAssembly text compiler").say "License: Apache-2.0").finish 0
    | .nothing =>
      return ((Transcript.blank.complain "Error: No input file specified").complain
        "Usage: pywatc <FILE> or pywatc build <FILE>").finish 1

end CommandLine
end ClassLang
