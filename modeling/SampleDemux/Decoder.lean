import SampleDemux.Format
import SampleDemux.Sample

/-!
# Decoding of components

A raw component is the natural number that its bits form. An integer code reads it as a sign and a
magnitude, kept apart because a code with a sign bit has two zeros; the reading is exact, and only
the finished value is rounded to a floating-point number. A decoder is a format, an encoding and a
width that the encoding supports.
-/

namespace SampleDemux

/-- A signed integer whose zero may carry a sign. -/
structure SignedMagnitude where
  /-- Whether the sign is minus. -/
  negative : Bool
  /-- The absolute value. -/
  magnitude : Nat
  deriving DecidableEq, Repr

namespace SignedMagnitude

/-- An integer; zero has a plus sign. -/
def ofInt (value : Int) : SignedMagnitude := ⟨decide (value < 0), value.natAbs⟩

/-- The integer that is meant; both zeros are 0. -/
def toInt (value : SignedMagnitude) : Int :=
  if value.negative then -(value.magnitude : Int) else value.magnitude

/-- The nearest floating-point number; a minus zero stays one. -/
def toFloat (value : SignedMagnitude) : Float :=
  if value.negative then -(Float.ofNat value.magnitude) else Float.ofNat value.magnitude

/-- The integer is read back. -/
@[simp]
theorem toInt_ofInt (value : Int) : (ofInt value).toInt = value := by
  simp only [ofInt, toInt, decide_eq_true_eq]
  split <;> omega

end SignedMagnitude

/-- The number whose reflected Gray code is given: each bit is the parity of the bits of the code
from that place up. The shifts double, so codes of up to 64 bits are covered. -/
def grayToBinary (gray : Nat) : Nat :=
  [1, 2, 4, 8, 16, 32].foldl (fun binary shift => binary ^^^ (binary >>> shift)) gray

/-- Twice a value plus 1: the odd integers. -/
def adjustedInt (adjusted : Bool) (value : Int) : Int :=
  if adjusted then 2 * value + 1 else value

/-- Twice a magnitude plus 1, before the sign is put to it. -/
def adjustedMagnitude (adjusted : Bool) (magnitude : Nat) : Nat :=
  if adjusted then 2 * magnitude + 1 else magnitude

/-- The exact value that a code gives to a raw component of a width. -/
def IntegerCode.value (code : IntegerCode) (adjusted : Bool) (width raw : Nat) : SignedMagnitude :=
  match code with
  | .offsetBinary => .ofInt (adjustedInt adjusted (raw - (Nat.pow 2 (width - 1) : Nat)))
  | .offsetGray => .ofInt
      (adjustedInt adjusted (grayToBinary raw - (Nat.pow 2 (width - 1) : Nat)))
  | .twosComplement => .ofInt (adjustedInt adjusted (Int.bmod raw (Nat.pow 2 width)))
  | .signMagnitude =>
    ⟨raw.testBit (width - 1), adjustedMagnitude adjusted (raw % Nat.pow 2 (width - 1))⟩
  | .magnitudeSign => ⟨raw.testBit 0, adjustedMagnitude adjusted (raw / 2)⟩

/-- The value of a raw component: a sign, an integer, or the number whose 32 or 64 bits it is. -/
def Encoding.value (encoding : Encoding) (width raw : Nat) : Float :=
  match encoding with
  | .sign => if raw.testBit (width - 1) then -1 else 1
  | .integer code adjusted => (code.value adjusted width raw).toFloat
  | .float =>
    if width = 32 then (Float32.ofBits raw.toUInt32).toFloat else Float.ofBits raw.toUInt64

/-- How the samples of a stream are decoded. -/
structure Decoder where
  /-- Layout of a sample. -/
  format : SampleFormat
  /-- Encoding of a component. -/
  encoding : Encoding
  /-- Bits of a component. -/
  quantization : Nat
  /-- The encoding has components of this width. -/
  supported : encoding.supports quantization = true
  deriving DecidableEq

namespace Decoder

/-- The decoder of a format, an encoding and a component width, if the encoding has that width. -/
def ofWidth? (format : SampleFormat) (encoding : Encoding) (quantization : Nat) : Option Decoder :=
  if supported : encoding.supports quantization = true then
    some ⟨format, encoding, quantization, supported⟩
  else none

/-- Bits of a sample. -/
def bitWidth (decoder : Decoder) : Nat :=
  decoder.format.components * decoder.quantization

/-- The value of one raw component. -/
def component (decoder : Decoder) (raw : Nat) : Float :=
  decoder.encoding.value decoder.quantization raw

/-- Negates a value, or leaves it. -/
def negateIf (negated : Bool) (value : Float) : Float :=
  if negated then -value else value

/-- The sample of the raw components in the order in which they are stored. A real sample has no
second component. -/
def sample (decoder : Decoder) (first second : Nat) : Sample :=
  match decoder.format with
  | .real negated => .real (negateIf negated (decoder.component first))
  | .complex quadratureFirst negatedI negatedQ =>
    let (i, q) := if quadratureFirst then (second, first) else (first, second)
    .complex (negateIf negatedI (decoder.component i)) (negateIf negatedQ (decoder.component q))

end Decoder

end SampleDemux
