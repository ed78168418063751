import SampleDemux.Decimal.Shortest
import SampleDemux.Dyadic

/-!
# Writing floating-point numbers

A number is written with the digits of its shortest decimal, either in positional form or with an
exponent, as a style says; or it is written with a fixed number of decimal places. Every sign is
written, that of a zero too.
-/

namespace SampleDemux

/-- How floating-point numbers are written. -/
structure NumberStyle where
  /-- Which of two shortest decimals at the same distance is taken. -/
  tie : Tie
  /-- Whether a number is written in positional form that has so many digits before its point; a
  number below a tenth has a negative count of the zeros after it. -/
  isPositional : Int → Bool
  /-- What follows a whole number in positional form. -/
  wholeSuffix : String
  /-- The text of no number. -/
  nan : String
  /-- The text of infinity, without a sign. -/
  infinity : String

namespace Decimal

/-- So many zeros. -/
def zeros (count : Nat) : List Char := List.replicate count '0'

/-- A decimal in positional form. -/
def positional (decimal : Decimal) (wholeSuffix : String) : List Char :=
  let digits := Nat.toDigits 10 decimal.digits
  let point := digits.length + decimal.exponent
  if 0 ≤ decimal.exponent then digits ++ zeros decimal.exponent.toNat ++ wholeSuffix.toList
  else if 0 < point then digits.take point.toNat ++ '.' :: digits.drop point.toNat
  else '0' :: '.' :: zeros (-point).toNat ++ digits

/-- A decimal with one digit before its point and an exponent. -/
def scientific (decimal : Decimal) : List Char :=
  let digits := Nat.toDigits 10 decimal.digits
  let fraction := digits.drop 1
  digits.take 1 ++ (if fraction.isEmpty then [] else '.' :: fraction) ++
    'e' :: (toString (digits.length + decimal.exponent - 1)).toList

/-- A decimal with so many places, from the number of units of the last place. -/
def withPlaces (places units : Nat) : List Char :=
  let fraction := Nat.toDigits 10 (units % Nat.pow 10 places)
  Nat.toDigits 10 (units / Nat.pow 10 places) ++
    '.' :: (zeros (places - fraction.length) ++ fraction)

end Decimal

/-- A text with a minus sign if it is wanted. -/
def withSign (negative : Bool) (chars : List Char) : String :=
  String.ofList (if negative then '-' :: chars else chars)

/-- Writes a number in a style. -/
def NumberStyle.render (style : NumberStyle) (value : Float) : String :=
  match FloatReading.ofFloat value with
  | .nan => style.nan
  | .infinite negative => withSign negative style.infinity.toList
  | .finite negative mantissa exponent =>
    let decimal := Decimal.shortest style.tie mantissa exponent
    let point := Decimal.digitCount decimal.digits + decimal.exponent
    withSign negative
      (if mantissa = 0 ∨ style.isPositional point then decimal.positional style.wholeSuffix
        else decimal.scientific)

/-- Writes a number with so many decimal places, ties to even. -/
def renderPlaces (places : Nat) (value : Float) : String :=
  match FloatReading.ofFloat value with
  | .nan => "NaN"
  | .infinite negative => withSign negative "inf".toList
  | .finite negative mantissa exponent =>
    let units :=
      roundQuotient .toEven (mantissa * Nat.pow 2 exponent.toNat * Nat.pow 10 places)
        (Nat.pow 2 (-exponent).toNat)
    withSign negative (Decimal.withPlaces places units)

/-- The style of plain texts: always positional, and nothing marks a whole number. -/
def NumberStyle.plain : NumberStyle where
  tie := .upward
  isPositional _ := true
  wholeSuffix := ""
  nan := "NaN"
  infinity := "inf"

end SampleDemux
