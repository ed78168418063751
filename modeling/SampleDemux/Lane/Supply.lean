import SampleDemux.Registry
import SampleDemux.Source

/-!
# Supplying byte sources

A source over a file gets its bytes from there when they are wanted, and more than that at once: the
bytes that are at hand stay what they were, but the file may have changed when the next ones are
wanted. A source over a reader alone has all its bytes from the start.
-/

namespace SampleDemux

/-- Bytes of a file that are read at once. -/
def bufferSize : Nat := 65536

namespace ByteSource

/-- The source after bytes have come from its file. -/
def supply (source : ByteSource) (data : List UInt8) : ByteSource :=
  { source with
    reader := source.reader.map fun reader => ⟨reader.events ++ [.bytes data]⟩
    file := source.file.map fun file => { file with offset := file.offset + data.length } }

/-- Gets bytes from the file if fewer are at hand than are wanted. A function of the number that is
missing says how many. -/
def fetch (source : ByteSource) (wanted : Nat) (amount : Nat → Nat) : Process ByteSource :=
  match source.file with
  | none => .done source
  | some file =>
    let missing := source.position + wanted - file.offset
    if missing = 0 then .done source
    else .look ⟨file.location, file.offset, amount missing⟩ fun data => .done (source.supply data)

/-- Gets the bytes of the next read: a buffer, or just the missing bytes if they are more. -/
def fetchRead (source : ByteSource) (count : Nat) : Process ByteSource :=
  source.fetch count (max bufferSize)

/-- Gets the bytes of the next skip, in whole buffers. -/
def fetchSkip (source : ByteSource) (count : Nat) : Process ByteSource :=
  source.fetch count fun missing => (missing + bufferSize - 1) / bufferSize * bufferSize

/-- What is wanted of a source over a reader alone is there. -/
@[simp]
theorem fetch_of_file_eq_none {source : ByteSource} (h : source.file = none) (wanted : Nat)
    (amount : Nat → Nat) : source.fetch wanted amount = .done source := by
  simp [fetch, h]

end ByteSource

end SampleDemux
