/-!
# Little-endian bytes

A number is written as a fixed count of bytes, least significant byte first. What does not fit is
cut off, so a negative integer is written in two's complement. Numbers that are written have one of
eight types, which says how many bytes they take.
-/

namespace SampleDemux

/-- The `count` low bytes of a number, least significant byte first. -/
def littleEndian : Nat → Nat → List UInt8
  | 0, _ => []
  | count + 1, value => UInt8.ofNat value :: littleEndian count (value / 256)

/-- An integer in two's complement. -/
def littleEndianInt (count : Nat) (value : Int) : List UInt8 :=
  littleEndian count (value % (Nat.pow 256 count : Nat)).toNat

/-- A number of one of the types that are written. -/
inductive WrittenNumber where
  /-- A natural number of 8 bits. -/
  | uint8 (value : UInt8)
  /-- An integer of 8 bits. -/
  | int8 (value : Int8)
  /-- A natural number of 16 bits. -/
  | uint16 (value : UInt16)
  /-- An integer of 16 bits. -/
  | int16 (value : Int16)
  /-- A natural number of 32 bits. -/
  | uint32 (value : UInt32)
  /-- An integer of 32 bits. -/
  | int32 (value : Int32)
  /-- A natural number of 64 bits. -/
  | uint64 (value : UInt64)
  /-- A floating-point number of single precision, by its bits. -/
  | float32 (bits : UInt32)
  deriving DecidableEq

/-- The bytes of a number. -/
def WrittenNumber.bytes : WrittenNumber → List UInt8
  | uint8 value => littleEndian 1 value.toNat
  | int8 value => littleEndianInt 1 value.toInt
  | uint16 value => littleEndian 2 value.toNat
  | int16 value => littleEndianInt 2 value.toInt
  | uint32 value => littleEndian 4 value.toNat
  | int32 value => littleEndianInt 4 value.toInt
  | uint64 value => littleEndian 8 value.toNat
  | float32 bits => littleEndian 4 bits.toNat

end SampleDemux
