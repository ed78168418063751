import SampleDemux.Rounding

/-!
# Exact readings of floating-point numbers

A finite floating-point number is a sign, a natural number and a power of two. Whole numbers are
taken from this reading in exact arithmetic: by cutting the fraction off, or by rounding to the
nearest with halves away from zero. A range that the result has to fit into is kept by its nearest
end. The same reading gives the nearest number of single precision.
-/

namespace SampleDemux

/-- What a floating-point number stands for. -/
inductive FloatReading where
  /-- No number. -/
  | nan
  /-- An infinity. -/
  | infinite (negative : Bool)
  /-- The number `mantissa * 2 ^ exponent` with a sign. -/
  | finite (negative : Bool) (mantissa : Nat) (exponent : Int)
  deriving DecidableEq, Repr

namespace FloatReading

/-- Reads the 64 bits: a sign, 11 bits of exponent and 52 bits of fraction. -/
def ofBits (bits : Nat) : FloatReading :=
  let negative := bits.testBit 63
  let exponent : Nat := (bits >>> 52) % 2048
  let fraction := bits % Nat.pow 2 52
  if exponent = 2047 then if fraction = 0 then .infinite negative else .nan
  else if exponent = 0 then .finite negative fraction (-1074)
  else .finite negative (Nat.pow 2 52 + fraction) (exponent - 1075)

/-- What a number stands for. -/
def ofFloat (value : Float) : FloatReading := ofBits value.toBits.toNat

/-- A magnitude with a sign. -/
def signed (negative : Bool) (magnitude : Nat) : Int :=
  if negative then -(magnitude : Int) else magnitude

/-- The whole part of `mantissa * 2 ^ exponent`. -/
def wholePart (mantissa : Nat) (exponent : Int) : Nat :=
  match exponent with
  | .ofNat shift => mantissa * Nat.pow 2 shift
  | .negSucc shift => mantissa / Nat.pow 2 (shift + 1)

/-- The whole number nearest to `mantissa * 2 ^ exponent`, the larger one of two. -/
def nearest (mantissa : Nat) (exponent : Int) : Nat :=
  match exponent with
  | .ofNat shift => mantissa * Nat.pow 2 shift
  | .negSucc shift => (mantissa + Nat.pow 2 shift) / Nat.pow 2 (shift + 1)

/-- A number as an integer between two bounds, by a rule for magnitudes. Infinities are the bounds,
and no number is 0. -/
def toIntBetween (rule : Nat → Int → Nat) (low high : Int) : FloatReading → Int
  | nan => 0
  | infinite negative => if negative then low else high
  | finite negative mantissa exponent =>
    max low (min high (signed negative (rule mantissa exponent)))

/-- The 31 bits of the single-precision number nearest to `mantissa * 2 ^ exponent`, ties to even.
The unit of a result has at least 2 ^ -149, and what is too large is infinite. -/
def singleMagnitude (mantissa : Nat) (exponent : Int) : Nat :=
  let unit := max (exponent + mantissa.log2 - 23) (-149)
  let units :=
    roundQuotient .toEven (mantissa * Nat.pow 2 (exponent - unit).toNat)
      (Nat.pow 2 (unit - exponent).toNat)
  min ((unit + 149).toNat * 0x800000 + units) 0x7f800000

/-- The 32 bits of the nearest single-precision number. -/
def singleBits : FloatReading → Nat
  | nan => 0x7fc00000
  | infinite negative => (if negative then 0x80000000 else 0) + 0x7f800000
  | finite negative mantissa exponent =>
    (if negative then 0x80000000 else 0) + singleMagnitude mantissa exponent

end FloatReading

/-- A number with its fraction cut off, between two bounds. -/
def truncateBetween (low high : Int) (value : Float) : Int :=
  (FloatReading.ofFloat value).toIntBetween FloatReading.wholePart low high

/-- A number rounded to the nearest integer, halves away from zero, between two bounds. -/
def roundBetween (low high : Int) (value : Float) : Int :=
  (FloatReading.ofFloat value).toIntBetween FloatReading.nearest low high

end SampleDemux
