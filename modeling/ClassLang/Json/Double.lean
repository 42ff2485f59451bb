/-
Finite binary floating-point numbers of 64 bits, in exact arithmetic: from decimal fractions and
back to the shortest ones.

Every such number is a whole multiple of the least positive one, `2 ^ -1074`, so it is kept as a
sign and a number of these units.  Rounding is then a question about natural numbers.
-/
import ClassLang.Json.Decimal

namespace ClassLang

structure Double where
  negative : Bool
  /-- The magnitude, in units of `2 ^ -1074`. -/
  units : Nat
deriving Repr, DecidableEq

namespace Double

/-- The units in one. -/
def one : Nat := Nat.pow 2 1074

/-- The least magnitude that is out of range. -/
def limit : Nat := Nat.pow 2 1024 * one

/-- A quotient to the nearest whole number.  A half goes to the even neighbour. -/
def divideEven (num den : Nat) : Nat :=
  let whole := num / den
  let twice := 2 * (num % den)
  if twice < den || (twice = den && whole % 2 = 0) then whole else whole + 1

/-- The magnitude nearest to a quotient of units.  It has no more than 53 binary digits, so a large
one is a multiple of a power of two. -/
def round (num den : Nat) : Nat :=
  let step := Nat.pow 2 (Nat.log2 (num / den) - 52)
  divideEven num (den * step) * step

def multiply (a b : Nat) : Nat := round (a * b) one

def divide (a b : Nat) : Nat := round (a * one) b

/-- The greatest power of ten in range has this exponent. -/
def topExponent : Nat := 308

def powerOfTen (exponent : Nat) : Nat := round (Nat.pow 10 exponent * one) 1

/-- Divides by the greatest power of ten so many times, or until nothing is left. -/
def divideByTop : Nat → Nat → Nat
  | 0, a => a
  | times + 1, a => if a = 0 then 0 else divideByTop times (divide a (powerOfTen topExponent))

/-- The magnitude of `digits * 10 ^ exponent`, unless it is out of range.  The digits are rounded,
then scaled by a rounded power of ten, and the result is rounded again, so it can be a step away
from the nearest magnitude. -/
def scale? (digits : Nat) (exponent : Int) : Option Nat :=
  let a := round (digits * one) 1
  match exponent with
  | .ofNat up =>
    if a = 0 then some 0
    else if up ≤ topExponent then
      let scaled := multiply a (powerOfTen up)
      if scaled < limit then some scaled else none
    else none
  | .negSucc less =>
    let times := less / topExponent
    some (divide (divideByTop times a) (powerOfTen (less + 1 - times * topExponent)))

def ofDecimal? (d : Decimal) : Option Double :=
  (scale? d.digits d.exponent).map (⟨d.negative, ·⟩)

def ofInt (n : Int) : Double := ⟨n < 0, round (n.natAbs * one) 1⟩

/-- A fraction with one digit after the point. -/
def tenths (n : Nat) : Double := ⟨false, round (n * one) 10⟩

/-- In units.  The two zeros are alike. -/
def value (d : Double) : Int := if d.negative then -(d.units : Int) else d.units

/-- Order of values. -/
def le (a b : Double) : Bool := a.value ≤ b.value

/-- The exponent of the first digit of a magnitude.  The least magnitude starts in place -324. -/
def topPlace (units : Nat) : Int := Decimal.width (units * Nat.pow 10 400 / one) - 401

/-- The magnitude nearest to `digits * 10 ^ exponent`. -/
def nearest (digits : Nat) (exponent : Int) : Nat :=
  round (digits * Nat.pow 10 exponent.toNat * one) (Nat.pow 10 (-exponent).toNat)

/-- Digits at a place to which the magnitude is the nearest one: of the two neighbours on that grid
the closer one, or else the other. -/
def digitsAt? (units : Nat) (exponent : Int) : Option Nat :=
  let num := units * Nat.pow 10 (-exponent).toNat
  let den := one * Nat.pow 10 exponent.toNat
  let below := num / den
  let closer := divideEven num den
  [closer, if closer = below then below + 1 else below].find? (nearest · exponent = units)

/-- The decimal of fewest digits whose nearest number is this one.  Seventeen digits are always
enough. -/
def shortest (d : Double) : Decimal :=
  let top := topPlace d.units
  let found := (List.range 17).findSome? fun (less : Nat) =>
    (digitsAt? d.units (top - less)).map fun digits => (⟨d.negative, digits, top - less⟩ : Decimal)
  found.getD ⟨d.negative, d.units * Nat.pow 5 1074, -1074⟩

end Double

end ClassLang
