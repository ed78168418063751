import SampleDemux.Decimal.Shortest

/-!
# Reading decimals

A decimal is digits with at most one point among or beside them, and maybe an exponent. It stands
for the nearest floating-point number; one that is too large for that stands for none.
-/

namespace SampleDemux

/-- The number of a text of digits after a number. -/
def digitsFrom (base : Nat) : Nat → List Char → Option Nat
  | value, [] => some value
  | value, c :: rest =>
    let digit :=
      if c.isDigit then c.toNat - '0'.toNat
      else if c.isAlpha then c.toLower.toNat - 'a'.toNat + 10
      else base
    if digit < base then digitsFrom base (base * value + digit) rest else none

/-- The number of a text of one digit or more. -/
def digits? (base : Nat) (chars : List Char) : Option Nat :=
  if chars.isEmpty then none else digitsFrom base 0 chars

namespace Decimal

/-- The exponent after its mark: digits with or without a sign. -/
def exponent? : List Char → Option Int
  | '-' :: rest => (digits? 10 rest).map fun n => -(n : Int)
  | '+' :: rest => (digits? 10 rest).map fun n => (n : Int)
  | chars => (digits? 10 chars).map fun n => (n : Int)

/-- Whether a character marks an exponent. -/
def isExponentMark (c : Char) : Bool := c = 'e' ∨ c = 'E'

/-- Reads a decimal without a sign. -/
def ofChars? (chars : List Char) : Option Decimal := do
  let mantissa := chars.takeWhile (!isExponentMark ·)
  let exponent ←
    match chars.dropWhile (!isExponentMark ·) with
    | [] => some 0
    | _ :: rest => exponent? rest
  let whole := mantissa.takeWhile (· ≠ '.')
  let fraction := (mantissa.dropWhile (· ≠ '.')).drop 1
  let digits ← digits? 10 (whole ++ fraction)
  return ⟨digits, exponent - fraction.length⟩

/-- More digits before the point than any finite number has. -/
def maxPlaces : Int := 310

/-- More zeros after the point than any number has that is not rounded to zero. -/
def minPlaces : Int := -330

/-- The nearest floating-point number, if it is finite. -/
def toFloat? (decimal : Decimal) : Option Float :=
  let places := digitCount decimal.digits + decimal.exponent
  if decimal.digits = 0 ∨ places < minPlaces then some 0
  else if maxPlaces < places then none
  else
    let value := Float.ofScientific decimal.digits (decimal.exponent < 0) decimal.exponent.natAbs
    if value.isFinite then some value else none

end Decimal

end SampleDemux
