import SampleDemux.Rounding

/-!
# Shortest decimals

The numbers that round to `mantissa * 2 ^ exponent` fill an interval around it. Half a unit of the
mantissa lies on each side, or a quarter below the least mantissa of its width; the ends belong to
the interval when the mantissa is even. The shortest decimal is a point of the interval on the
coarsest power-of-ten grid that has one there, the nearest of two. All comparisons are made between
natural numbers.
-/

namespace SampleDemux

/-- The number `digits * 10 ^ exponent`. -/
structure Decimal where
  /-- The digits as one number. -/
  digits : Nat
  /-- The power of ten. -/
  exponent : Int
  deriving DecidableEq, Repr

namespace Decimal

/-- The least mantissa of full width. -/
def leastFullMantissa : Nat := Nat.pow 2 52

/-- The exponent below which mantissas do not have full width. -/
def leastExponent : Int := -1074

/-- Number of decimal digits, none for 0. -/
def digitCount (n : Nat) : Nat := if n = 0 then 0 else (Nat.toDigits 10 n).length

/-- The greatest place `p` with `10 ^ p ≤ mantissa * 2 ^ exponent`, of a positive number. -/
def leadingPlace (mantissa : Nat) (exponent : Int) : Int :=
  let numerator := mantissa * Nat.pow 2 exponent.toNat
  let denominator := Nat.pow 2 (-exponent).toNat
  if denominator ≤ numerator then (digitCount (numerator / denominator) : Int) - 1
  else -(digitCount ((denominator - 1) / numerator) : Int)

/-- Whether `point / scale` quarters of the mantissa's unit round to the mantissa. -/
def roundsTo (mantissa : Nat) (exponent : Int) (point scale : Nat) : Bool :=
  let below := if mantissa = leastFullMantissa ∧ leastExponent < exponent then 1 else 2
  let low := (4 * mantissa - below) * scale
  let high := (4 * mantissa + 2) * scale
  if mantissa % 2 = 0 then low ≤ point && point ≤ high else low < point && point < high

/-- The nearest multiple of `10 ^ place` that rounds to the number. -/
def onGrid? (tie : Tie) (mantissa : Nat) (exponent place : Int) : Option Nat :=
  let quarter := exponent - 2
  let grid := Nat.pow 10 place.toNat * Nat.pow 2 (-quarter).toNat
  let scale := Nat.pow 10 (-place).toNat * Nat.pow 2 quarter.toNat
  let value := 4 * mantissa * scale
  let below := value / grid
  match roundsTo mantissa exponent (below * grid) scale,
      roundsTo mantissa exponent ((below + 1) * grid) scale with
  | true, true => some (roundQuotient tie value grid)
  | true, false => some below
  | false, true => some (below + 1)
  | false, false => none

/-- The first grid with a point that rounds to the number, going down from a place. -/
def search (tie : Tie) (mantissa : Nat) (exponent : Int) : Nat → Int → Decimal
  | 0, place => ⟨(onGrid? tie mantissa exponent place).getD 0, place⟩
  | steps + 1, place =>
    match onGrid? tie mantissa exponent place with
    | some digits => ⟨digits, place⟩
    | none => search tie mantissa exponent steps (place - 1)

/-- Digits that are enough for every number. -/
def enoughDigits : Nat := 17

/-- The shortest decimal that rounds to `mantissa * 2 ^ exponent`. -/
def shortest (tie : Tie) (mantissa : Nat) (exponent : Int) : Decimal :=
  if mantissa = 0 then ⟨0, 0⟩
  else search tie mantissa exponent enoughDigits (leadingPlace mantissa exponent + 1)

end Decimal

end SampleDemux
