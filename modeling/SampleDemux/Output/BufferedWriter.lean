/-!
# Buffered writing

A writer puts bytes into the content of a file at its own place and holds small pieces back until
there are enough of them. What it holds back is not in the content yet, and two writers of one file
overwrite each other where their places overlap.
-/

namespace SampleDemux

/-- Most bytes that a writer holds back. -/
def bufferCapacity : Nat := 8192

/-- Puts bytes into a content at an offset; a gap before them is filled with zeros. -/
def overlay (content : List UInt8) (offset : Nat) (data : List UInt8) : List UInt8 :=
  if data = [] then content
  else
    content.take offset ++ List.replicate (offset - content.length) 0 ++ data ++
      content.drop (offset + data.length)

/-- The state of a writer. -/
structure BufferedWriter where
  /-- Where the bytes that are held back go. -/
  offset : Nat := 0
  /-- The bytes that are held back. -/
  pending : Array UInt8 := #[]
  deriving DecidableEq, Repr

namespace BufferedWriter

/-- Puts the bytes that are held back into the content. -/
def flush (writer : BufferedWriter) (content : List UInt8) : BufferedWriter × List UInt8 :=
  (⟨writer.offset + writer.pending.size, #[]⟩,
    overlay content writer.offset writer.pending.toList)

/-- Where the next byte goes. -/
def position (writer : BufferedWriter) : Nat := writer.offset + writer.pending.size

/-- Writes bytes. They are held back if there is room for them, after what was held back went out if
need be; more than a full buffer is never held back. -/
def write (writer : BufferedWriter) (data content : List UInt8) :
    BufferedWriter × List UInt8 :=
  let spare := bufferCapacity - writer.pending.size
  let (writer, content) := if spare < data.length then writer.flush content else (writer, content)
  if bufferCapacity ≤ data.length then
    let (writer, content) := writer.flush content
    (⟨writer.offset + data.length, #[]⟩, overlay content writer.offset data)
  else ({ writer with pending := writer.pending ++ data.toArray }, content)

/-- Goes to another place; what was held back goes out before. -/
def seek (writer : BufferedWriter) (offset : Nat) (content : List UInt8) :
    BufferedWriter × List UInt8 :=
  let (_, content) := writer.flush content
  (⟨offset, #[]⟩, content)

end BufferedWriter

end SampleDemux
