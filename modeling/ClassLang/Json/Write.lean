/-
The text of JSON values, on one line or spread over lines.
-/
import ClassLang.Json
import ClassLang.Text.Quoted

namespace ClassLang
namespace Json

/-- Control characters need an escape; some have one of their own. -/
def escapedChar (c : Char) : String :=
  match c with
  | '"' => "\\\""
  | '\\' => "\\\\"
  | '\x08' => "\\b"
  | '\x0c' => "\\f"
  | '\n' => "\\n"
  | '\r' => "\\r"
  | '\t' => "\\t"
  | c =>
    if c.toNat < 0x10 then "\\u000" ++ Text.hex c.toNat
    else if c.toNat < 0x20 then "\\u00" ++ Text.hex c.toNat
    else c.toString

def strText (s : String) : String :=
  "\"" ++ String.join (s.toList.map escapedChar) ++ "\""

/-- A new line, two blanks deeper for each level. -/
def newLine (level : Nat) : String :=
  "\n" ++ String.ofList (List.replicate (2 * level) ' ')

mutual

/-- Everything on one line. -/
def compact : Json → String
  | .null => "null"
  | .bool value => if value then "true" else "false"
  | .int value => toString value
  | .decimal value => value.text
  | .str value => strText value
  | .arr items => "[" ++ compactItems items ++ "]"
  | .obj fields => "\x7b" ++ compactFields fields ++ "\x7d"
termination_by structural j => j

def compactItems : List Json → String
  | [] => ""
  | [j] => j.compact
  | j :: rest => j.compact ++ "," ++ compactItems rest
termination_by structural js => js

def compactFields : List (String × Json) → String
  | [] => ""
  | [(name, j)] => strText name ++ ":" ++ j.compact
  | (name, j) :: rest => strText name ++ ":" ++ j.compact ++ "," ++ compactFields rest
termination_by structural fields => fields

end

mutual

/-- Each item and field on a line of its own; a list or an object with nothing in it stays closed. -/
def pretty (level : Nat) : Json → String
  | .arr [] => "[]"
  | .arr items => "[" ++ prettyItems (level + 1) items ++ newLine level ++ "]"
  | .obj [] => "\x7b\x7d"
  | .obj fields => "\x7b" ++ prettyFields (level + 1) fields ++ newLine level ++ "\x7d"
  | j => j.compact
termination_by structural j => j

def prettyItems (level : Nat) : List Json → String
  | [] => ""
  | [j] => newLine level ++ pretty level j
  | j :: rest => newLine level ++ pretty level j ++ "," ++ prettyItems level rest
termination_by structural js => js

def prettyFields (level : Nat) : List (String × Json) → String
  | [] => ""
  | [(name, j)] => newLine level ++ strText name ++ ": " ++ pretty level j
  | (name, j) :: rest =>
    newLine level ++ strText name ++ ": " ++ pretty level j ++ "," ++ prettyFields level rest
termination_by structural fields => fields

end

end Json
end ClassLang
