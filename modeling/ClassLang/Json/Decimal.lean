/-
Decimal fractions, as JSON writes them.
-/

namespace ClassLang

/-- The number `± digits * 10 ^ exponent`.  Zero has a sign. -/
structure Decimal where
  negative : Bool
  digits : Nat
  exponent : Int
deriving Repr, DecidableEq

namespace Decimal

/-- How many digits it takes to write a number; none for zero. -/
def width (n : Nat) : Nat := if n = 0 then 0 else (Nat.toDigits 10 n).length

/-- Digits without the zeros at their end, and how many of those there were.  The first argument
bounds the number of zeros looked at. -/
def stripZeros : Nat → Nat → Nat × Nat
  | 0, n => (n, 0)
  | bound + 1, n =>
    if n % 10 = 0 then
      let (rest, zeros) := stripZeros bound (n / 10)
      (rest, zeros + 1)
    else (n, 0)

/-- Always with a point or an exponent, so that it never reads as an integer: positional from
`0.00001` to below `10 ^ 16`, else with an exponent. -/
def text (d : Decimal) : String :=
  let sign := if d.negative then "-" else ""
  if d.digits = 0 then sign ++ "0.0" else
  let (digits, zeros) := stripZeros (width d.digits) d.digits
  let cs := Nat.toDigits 10 digits
  let exponent := d.exponent + zeros
  let point := exponent + cs.length
  let places :=
    if 0 ≤ exponent && point ≤ 16 then
      String.ofList (cs ++ List.replicate exponent.toNat '0') ++ ".0"
    else if 0 < point && point ≤ 16 then
      String.ofList (cs.take point.toNat) ++ "." ++ String.ofList (cs.drop point.toNat)
    else if -5 < point && point ≤ 0 then
      "0." ++ String.ofList (List.replicate (-point).toNat '0' ++ cs)
    else
      let fraction := if cs.length = 1 then "" else "." ++ String.ofList (cs.drop 1)
      String.ofList (cs.take 1) ++ fraction ++ "e" ++ toString (point - 1)
  sign ++ places

end Decimal

end ClassLang
