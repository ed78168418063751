import SampleDemux.Sink.StreamFile
import SampleDemux.Proofs.WaveFile

/-!
# The bytes of samples

A component becomes a number of the type that is written: an integer target takes the nearest
integer and stays within its range, the other one takes the nearest number of single precision. A
real stream writes one number to a sample and a complex stream two, the in-phase component first,
so all samples of a stream take the same count of bytes.
-/

namespace SampleDemux

namespace FloatReading

/-- An integer between two bounds around zero is between them. -/
theorem le_toIntBetween {low high : ℤ} (hlow : low ≤ 0) (hhigh : 0 ≤ high) (rule : ℕ → ℤ → ℕ)
    (reading : FloatReading) :
    low ≤ reading.toIntBetween rule low high ∧ reading.toIntBetween rule low high ≤ high := by
  cases reading with
  | nan => exact ⟨hlow, hhigh⟩
  | infinite negative =>
    rw [toIntBetween]
    split <;> omega
  | finite negative mantissa exponent =>
    rw [toIntBetween]
    omega

/-- A number of single precision takes 32 bits. -/
theorem singleBits_lt (reading : FloatReading) : reading.singleBits < 2 ^ 32 := by
  cases reading with
  | nan => decide
  | infinite negative => cases negative <;> decide
  | finite negative mantissa exponent =>
    have hmagnitude : singleMagnitude mantissa exponent ≤ 0x7f800000 := Nat.min_le_right ..
    rw [singleBits]
    split <;> omega

end FloatReading

/-- A rounded number is between its bounds. -/
theorem le_roundBetween {low high : ℤ} (hlow : low ≤ 0) (hhigh : 0 ≤ high) (value : Float) :
    low ≤ roundBetween low high value ∧ roundBetween low high value ≤ high :=
  FloatReading.le_toIntBetween hlow hhigh _ _

namespace SampleType

/-- The number that is written for a component. -/
def convert (type : SampleType) (value : Float) : WrittenNumber :=
  match type with
  | int8 => .int8 (Int8.ofInt (roundBetween (-0x80) 0x7f value))
  | int16 => .int16 (Int16.ofInt (roundBetween (-0x8000) 0x7fff value))
  | int32 => .int32 (Int32.ofInt (roundBetween (-0x80000000) 0x7fffffff value))
  | float32 => .float32 (UInt32.ofNat (FloatReading.ofFloat value).singleBits)

/-- The bytes of a value are those of the number that it becomes. -/
theorem encode_eq (type : SampleType) (value : Float) :
    type.encode value = (type.convert value).bytes := by
  cases type with
  | int8 =>
    have hrange := le_roundBetween (by decide : (-0x80 : ℤ) ≤ 0) (by decide : (0 : ℤ) ≤ 0x7f) value
    rw [convert, WrittenNumber.bytes, Int8.toInt_ofInt_of_le (by omega) (by omega)]
    rfl
  | int16 =>
    have hrange :=
      le_roundBetween (by decide : (-0x8000 : ℤ) ≤ 0) (by decide : (0 : ℤ) ≤ 0x7fff) value
    rw [convert, WrittenNumber.bytes, Int16.toInt_ofInt_of_le (by omega) (by omega)]
    rfl
  | int32 =>
    have hrange :=
      le_roundBetween (by decide : (-0x80000000 : ℤ) ≤ 0) (by decide : (0 : ℤ) ≤ 0x7fffffff) value
    rw [convert, WrittenNumber.bytes, Int32.toInt_ofInt_of_le (by omega) (by omega)]
    rfl
  | float32 =>
    have hbits := (FloatReading.ofFloat value).singleBits_lt
    rw [convert, WrittenNumber.bytes, UInt32.toNat_ofNat_of_lt' hbits]
    rfl

/-- Numbers of a type take as many bytes as the type says. -/
theorem length_bytes_convert (type : SampleType) (value : Float) :
    (type.convert value).bytes.length = type.bits / 8 := by
  cases type <;> exact length_littleEndian _ _

end SampleType

namespace Sample

/-- The components of a sample that are written: the in-phase one, and of a complex stream the
quadrature one behind it, which is 0 if the sample has none. -/
def components (isComplex : Bool) (sample : Sample) : List Float :=
  if isComplex then [sample.inPhase, sample.quadrature?.getD 0] else [sample.inPhase]

/-- The bytes of a sample: those of its components as numbers of a type, one after the other. -/
def bytes (type : SampleType) (isComplex : Bool) (sample : Sample) : List UInt8 :=
  (sample.components isComplex).flatMap fun value => (type.convert value).bytes

/-- A sample is written as its bytes. -/
theorem encodeSample_eq (type : SampleType) (isComplex : Bool) (sample : Sample) :
    StreamFile.encodeSample type isComplex sample = sample.bytes type isComplex := by
  rw [StreamFile.encodeSample, bytes, components, type.encode_eq, type.encode_eq]
  cases isComplex with
  | true => rw [if_pos rfl, if_pos rfl, List.flatMap_cons, List.flatMap_singleton]
  | false => exact (List.flatMap_singleton ..).symm

end Sample

/-- Numbers that are written to a sample. -/
def channelCount (isComplex : Bool) : ℕ := if isComplex then 2 else 1

/-- The bytes of samples, one sample after the other. -/
def payload (type : SampleType) (isComplex : Bool) (samples : List Sample) : List UInt8 :=
  samples.flatMap (·.bytes type isComplex)

/-- A sample takes as many bytes as its numbers. -/
theorem Sample.length_bytes (type : SampleType) (isComplex : Bool) (sample : Sample) :
    (sample.bytes type isComplex).length = channelCount isComplex * (type.bits / 8) := by
  rw [bytes, components, channelCount]
  cases isComplex with
  | true =>
    rw [if_pos rfl, if_pos rfl, List.flatMap_cons, List.flatMap_singleton, List.length_append,
      type.length_bytes_convert, type.length_bytes_convert, Nat.two_mul]
  | false =>
    rw [if_neg Bool.false_ne_true, if_neg Bool.false_ne_true, List.flatMap_singleton,
      type.length_bytes_convert, Nat.one_mul]

/-- Samples take as many bytes as their numbers. -/
theorem length_payload (type : SampleType) (isComplex : Bool) (samples : List Sample) :
    (payload type isComplex samples).length =
      samples.length * (channelCount isComplex * (type.bits / 8)) := by
  induction samples with
  | nil => rw [payload, List.flatMap_nil, List.length_nil, List.length_nil, Nat.zero_mul]
  | cons sample samples ih =>
    rw [payload] at ih ⊢
    rw [List.flatMap_cons, List.length_append, ih, sample.length_bytes, List.length_cons,
      Nat.succ_mul, Nat.add_comm]

/-- The bytes of one more sample come behind the others. -/
theorem payload_concat (type : SampleType) (isComplex : Bool) (samples : List Sample)
    (sample : Sample) :
    payload type isComplex (samples ++ [sample]) =
      payload type isComplex samples ++ sample.bytes type isComplex := by
  rw [payload, List.flatMap_append, List.flatMap_singleton, payload]

end SampleDemux
