/-
Strings between double quotes, with every character that would not show written as an escape.
-/
import ClassLang.Text.Invisible

namespace ClassLang
namespace Text

/-- Digits of a number in base 16, in lower case and without leading zeros. -/
def hex (n : Nat) : String := String.ofList (Nat.toDigits 16 n)

def isControl (c : Char) : Bool := c.toNat < 0x20 || c.toNat = 0x7f

def quotedChar (c : Char) : String :=
  match c with
  | '"' => "\\\""
  | '\\' => "\\\\"
  | '\n' => "\\n"
  | '\r' => "\\r"
  | '\t' => "\\t"
  | '\x00' => "\\0"
  | c => if isControl c || isInvisible c then "\\u\x7b" ++ hex c.toNat ++ "\x7d" else c.toString

def quoted (s : String) : String :=
  "\"" ++ String.join (s.toList.map quotedChar) ++ "\""

end Text
end ClassLang
