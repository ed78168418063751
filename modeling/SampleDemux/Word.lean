import SampleDemux.Error

/-!
# Words

The words of a chunk have 1, 2, 4 or 8 bytes and are stored in a declared byte order. Before bits
are taken from a chunk, its words are rewritten in the order in which they are read. A trailing
part that is shorter than a word stays as it is.
-/

namespace SampleDemux

/-- Width of a word. -/
inductive WordSize where
  /-- One byte. -/
  | w8
  /-- Two bytes. -/
  | w16
  /-- Four bytes. -/
  | w32
  /-- Eight bytes. -/
  | w64
  deriving DecidableEq, Repr, Inhabited

namespace WordSize

/-- Bytes of a word. -/
def bytes : WordSize → Nat
  | w8 => 1
  | w16 => 2
  | w32 => 4
  | w64 => 8

/-- A word has at least one byte. -/
theorem bytes_pos (size : WordSize) : 0 < size.bytes := by cases size <;> decide

/-- The width of a word of so many bytes. -/
def ofBytes : Nat → Except DescriptorError WordSize
  | 1 => .ok w8
  | 2 => .ok w16
  | 4 => .ok w32
  | 8 => .ok w64
  | bytes => .error (.unsupportedWordSize bytes)

/-- Reverses every group of so many bytes. The first argument holds the bytes of the group that has
been begun, last one first; a group that stays short is given back in its own order. -/
def reverseWords (bytes : Nat) : List UInt8 → List UInt8 → List UInt8
  | word, [] => word.reverse
  | word, byte :: rest =>
    if word.length + 1 = bytes then byte :: word ++ reverseWords bytes [] rest
    else reverseWords bytes (byte :: word) rest

/-- Rewrites every word from one byte order to another. -/
def reorder (size : WordSize) (data : List UInt8) (stored wanted : ByteOrder) : List UInt8 :=
  if stored = wanted then data else reverseWords size.bytes [] data

end WordSize

end SampleDemux
