/-
JSON text as tokens.

The scanner looks at one character at a time and never back.
-/
import ClassLang.Json

namespace ClassLang
namespace Json

inductive Token where
  | openArr
  | closeArr
  | openObj
  | closeObj
  | comma
  | colon
  | str (s : String)
  /-- A number, or one of the three words. -/
  | scalar (j : Json)

/-- Significands stay below this. -/
def significandLimit : Nat := Nat.pow 2 64

/-- The number that decimal digits spell. -/
def digitsValue (cs : List Char) : Nat :=
  cs.foldl (fun n c => 10 * n + (c.toNat - '0'.toNat)) 0

/-- Puts digits behind a number while it stays below the limit, and counts them. -/
def appendDigits (n : Nat) : List Char → Nat × Nat
  | [] => (n, 0)
  | c :: rest =>
    let longer := 10 * n + (c.toNat - '0'.toNat)
    if longer < significandLimit then
      let (n, taken) := appendDigits longer rest
      (n, taken + 1)
    else (n, 0)

/-- Digits, and what follows them; there must be one. -/
def digits? (cs : List Char) : Option (List Char × List Char) :=
  match cs.span Char.isDigit with
  | ([], _) => none
  | split => some split

/-- The digits after a point, if there is a point. -/
def fraction? : List Char → Option (Option (List Char) × List Char)
  | '.' :: cs => do
    let (digits, rest) ← digits? cs
    return (some digits, rest)
  | cs => some (none, cs)

def isExponentMark (c : Char) : Bool := c = 'e' || c = 'E'

/-- The power of ten after an exponent mark, if there is a mark.  Nothing may follow. -/
def exponent? : List Char → Option (Option Int)
  | [] => some none
  | mark :: cs => do
    if !isExponentMark mark then none
    let (sign, cs) := match cs with
      | '-' :: cs => (-1, cs)
      | '+' :: cs => (1, cs)
      | cs => ((1 : Int), cs)
    match ← digits? cs with
    | (digits, []) => return some (sign * digitsValue digits)
    | _ => none

/-- Whether a number without a fraction and an exponent is an integer of 64 bits, with a sign or
without one.  Minus zero is no integer, since no integer has its sign. -/
def isInteger (negative : Bool) (digits : Nat) : Bool :=
  if negative then 0 < digits && digits ≤ Nat.pow 2 63 else digits < significandLimit

/-- A number.  Of a long one only the first digits count; those left out before the point raise the
exponent. -/
def ofNumber? (cs : List Char) : Option Json := do
  let (negative, cs) := match cs with
    | '-' :: cs => (true, cs)
    | cs => (false, cs)
  let (whole, cs) ← digits? cs
  if whole.length > 1 && whole.head? = some '0' then none
  let (fraction, cs) ← fraction? cs
  let exponent ← exponent? cs
  let (digits, taken) := appendDigits 0 whole
  let left := whole.length - taken
  if fraction.isNone && exponent.isNone && left = 0 && isInteger negative digits then
    return .int (if negative then -(digits : Int) else digits)
  let (digits, places) := appendDigits digits (fraction.getD [])
  return .decimal ⟨negative, digits, exponent.getD 0 + left - places⟩

def Token.ofWord? (cs : List Char) : Option Token :=
  if cs = "null".toList then some (.scalar .null)
  else if cs = "true".toList then some (.scalar (.bool true))
  else if cs = "false".toList then some (.scalar (.bool false))
  else (ofNumber? cs).map .scalar

/-- Where the scanner is.  Characters read of an unfinished token are kept last first. -/
inductive Scan where
  | between
  | word (read : List Char)
  | string (read : List Char)
  | escape (read : List Char)
  /-- In an escape of four digits, of which `missing` are still to come.  `high` is the first half
  of a pair that this is the second half of. -/
  | code (read : List Char) (high : Option Nat) (missing value : Nat)
  /-- After the first half of a pair, before the backslash of the second. -/
  | pair (read : List Char) (high : Nat)
  /-- After that backslash. -/
  | pairEscape (read : List Char) (high : Nat)

def isBlank (c : Char) : Bool := c = ' ' || c = '\t' || c = '\n' || c = '\r'

def isWordChar (c : Char) : Bool := c.isAlphanum || c = '+' || c = '-' || c = '.'

def hexValue? (c : Char) : Option Nat :=
  if c.isDigit then some (c.toNat - '0'.toNat)
  else if 'a' ≤ c ∧ c ≤ 'f' then some (c.toNat - 'a'.toNat + 10)
  else if 'A' ≤ c ∧ c ≤ 'F' then some (c.toNat - 'A'.toNat + 10)
  else none

/-- The character that a letter stands for after a backslash. -/
def unescape? : Char → Option Char
  | '"' => some '"'
  | '\\' => some '\\'
  | '/' => some '/'
  | 'b' => some '\x08'
  | 'f' => some '\x0c'
  | 'n' => some '\n'
  | 'r' => some '\r'
  | 't' => some '\t'
  | _ => none

def isHighHalf (value : Nat) : Bool := 0xd800 ≤ value && value < 0xdc00

def isLowHalf (value : Nat) : Bool := 0xdc00 ≤ value && value < 0xe000

/-- After the last digit of an escape: half of a pair must have its other half. -/
def endCode (read : List Char) (high : Option Nat) (value : Nat) : Option Scan :=
  match high with
  | some high =>
    if isLowHalf value then
      some (.string (Char.ofNat (0x10000 + (high - 0xd800) * 0x400 + (value - 0xdc00)) :: read))
    else none
  | none =>
    if isHighHalf value then some (.pair read value)
    else if isLowHalf value then none
    else some (.string (Char.ofNat value :: read))

/-- The scanner between tokens: where it goes, and the token that one character makes. -/
def scanBetween (c : Char) : Option (Scan × Option Token) :=
  match c with
  | '[' => some (.between, some .openArr)
  | ']' => some (.between, some .closeArr)
  | '\x7b' => some (.between, some .openObj)
  | '\x7d' => some (.between, some .closeObj)
  | ',' => some (.between, some .comma)
  | ':' => some (.between, some .colon)
  | '"' => some (.string [], none)
  | c =>
    if isBlank c then some (.between, none)
    else if isWordChar c then some (.word [c], none)
    else none

/-- One character more.  Tokens are kept last first. -/
def scanStep (state : Scan × List Token) (c : Char) : Option (Scan × List Token) :=
  let (scan, tokens) := state
  match scan with
  | .between => do
    let (scan, token) ← scanBetween c
    return (scan, token.toList ++ tokens)
  | .word read =>
    if isWordChar c then some (.word (c :: read), tokens)
    else do
      let word ← Token.ofWord? read.reverse
      let (scan, token) ← scanBetween c
      return (scan, token.toList ++ word :: tokens)
  | .string read =>
    if c = '"' then some (.between, .str (String.ofList read.reverse) :: tokens)
    else if c = '\\' then some (.escape read, tokens)
    else if c.toNat < 0x20 then none
    else some (.string (c :: read), tokens)
  | .escape read =>
    if c = 'u' then some (.code read none 4 0, tokens)
    else do
      let c ← unescape? c
      return (.string (c :: read), tokens)
  | .code read high missing value => do
    let digit ← hexValue? c
    let value := 16 * value + digit
    if missing > 1 then return (.code read high (missing - 1) value, tokens)
    let scan ← endCode read high value
    return (scan, tokens)
  | .pair read high => if c = '\\' then some (.pairEscape read high, tokens) else none
  | .pairEscape read high => if c = 'u' then some (.code read (some high) 4 0, tokens) else none

/-- All tokens of a text. -/
def tokens? (cs : List Char) : Option (List Token) := do
  match ← cs.foldlM scanStep (.between, []) with
  | (.between, tokens) => return tokens.reverse
  | (.word read, tokens) => do
    let word ← Token.ofWord? read.reverse
    return (word :: tokens).reverse
  | _ => none

end Json
end ClassLang
