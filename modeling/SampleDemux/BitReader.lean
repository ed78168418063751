import SampleDemux.Decoder

/-!
# Reading bits

A bit reader walks the bits of a byte string, taking the most or the least significant bit of each
byte first. A read takes what it needs from the current byte and goes on with the next one: most
significant first the parts are put one below the other, least significant first one above the
other. A failed read or skip says why.
-/

namespace SampleDemux

/-- Which bit of a byte comes first. -/
inductive BitOrder where
  /-- The most significant bit. -/
  | msbFirst
  /-- The least significant bit. -/
  | lsbFirst
  deriving DecidableEq, Repr, Inhabited

/-- Why bits could not be read. -/
inductive BitError where
  /-- A read of more bits than are left, at a position. -/
  | readPastEnd (count position : Nat)
  /-- A skip of more bits than are left, at a position. -/
  | skipPastEnd (count position : Nat)
  /-- A read of more bits than a value has. -/
  | tooWide
  deriving DecidableEq, Repr

namespace BitError

/-- The text of a bit error. -/
def message : BitError → String
  | readPastEnd count position => s!"get_n({count}): out of bounds bits at {position}"
  | skipPastEnd count position => s!"skip_n({count}): out of bounds bits at {position}"
  | tooWide => "excessive bits for type read"

end BitError

/-- Widest value that is read at once. -/
def maxReadBits : Nat := 64

/-- A byte string and the number of its bits that have been read. -/
structure BitReader where
  /-- Which bit of a byte comes first. -/
  order : BitOrder
  /-- The bytes. -/
  data : Array UInt8
  /-- Bits read or skipped so far. -/
  position : Nat := 0
  deriving DecidableEq, Repr

namespace BitReader

/-- Bits that are left. -/
def available (reader : BitReader) : Nat := 8 * reader.data.size - reader.position

/-- The byte at an index, 0 past the end. -/
def byteAt (data : Array UInt8) (index : Nat) : Nat := (data[index]?.getD 0).toNat

/-- The number formed by `count` bits from `position` on, taken byte by byte. -/
def bitsFrom (order : BitOrder) (data : Array UInt8) (position count : Nat) : Nat :=
  if count = 0 then 0
  else
    let phase := position % 8
    let width := min count (8 - phase)
    let byte := byteAt data (position / 8)
    let rest := bitsFrom order data (position + width) (count - width)
    match order with
    | .msbFirst =>
      (byte >>> (8 - phase - width)) % Nat.pow 2 width * Nat.pow 2 (count - width) + rest
    | .lsbFirst => (byte >>> phase) % Nat.pow 2 width + rest * Nat.pow 2 width
termination_by count
decreasing_by
  have := Nat.mod_lt position (by decide : 8 > 0)
  omega

/-- Reads so many bits as a number. -/
def get (reader : BitReader) (count : Nat) : Except BitError (Nat × BitReader) :=
  if maxReadBits < count then .error .tooWide
  else if reader.available < count then
    .error (.readPastEnd count reader.position)
  else
    .ok (bitsFrom reader.order reader.data reader.position count,
      { reader with position := reader.position + count })

/-- Passes over so many bits. -/
def skip (reader : BitReader) (count : Nat) : Except BitError BitReader :=
  if reader.available < count then
    .error (.skipPastEnd count reader.position)
  else .ok { reader with position := reader.position + count }

/-- Reads one sample: a component, and a second one if the format is complex. -/
def sample (reader : BitReader) (decoder : Decoder) : Except BitError (Sample × BitReader) := do
  let (first, reader) ← reader.get decoder.quantization
  if decoder.format.isComplex then
    let (second, reader) ← reader.get decoder.quantization
    return (decoder.sample first second, reader)
  else return (decoder.sample first 0, reader)

end BitReader

end SampleDemux
