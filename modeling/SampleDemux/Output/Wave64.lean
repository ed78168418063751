import SampleDemux.Output.BufferedWriter
import SampleDemux.Output.LittleEndian

/-!
# Wave64 files

A Wave64 file is a header of 104 bytes followed by sample values. Every chunk begins with a
128-bit identifier and a 64-bit size that counts these 24 bytes too. The sizes of the file and of
the data chunk are zero until the file is finished; then they are put into the header, and writing
may go on after the data.
-/

namespace SampleDemux

/-- The attributes of a Wave64 file. -/
structure Wave64Format where
  /-- Samples per second. -/
  sampleRate : Nat
  /-- Values of one sample. -/
  channels : Nat
  /-- Bits of a value. -/
  bitsPerSample : Nat
  /-- Whether values are floating-point numbers. -/
  float : Bool
  deriving DecidableEq, Repr

namespace Wave64

/-- Identifier of the whole file. -/
def riffGuid : List UInt8 :=
  [0x72, 0x69, 0x66, 0x66, 0x2e, 0x91, 0xcf, 0x11, 0xa5, 0xd6, 0x28, 0xdb, 0x04, 0xc1, 0x00, 0x00]

/-- The end that the other identifiers have in common. -/
def guidTail : List UInt8 :=
  [0xf3, 0xac, 0xd3, 0x11, 0x8c, 0xd1, 0x00, 0xc0, 0x4f, 0x8e, 0xdb, 0x8a]

/-- Identifier of the kind of file. -/
def waveGuid : List UInt8 := [0x77, 0x61, 0x76, 0x65] ++ guidTail

/-- Identifier of the format chunk. -/
def formatGuid : List UInt8 := [0x66, 0x6d, 0x74, 0x20] ++ guidTail

/-- Identifier of the data chunk. -/
def dataGuid : List UInt8 := [0x64, 0x61, 0x74, 0x61] ++ guidTail

/-- Bytes of a chunk's identifier and size. -/
def chunkHeaderSize : Nat := 24

/-- Where the size of the file is. -/
def fileSizeOffset : Nat := 16

/-- Where the size of the data chunk is. -/
def dataSizeOffset : Nat := 96

end Wave64

namespace Wave64Format

/-- Bytes of one sample. -/
def blockAlign (format : Wave64Format) : Nat := format.channels * (format.bitsPerSample / 8)

/-- Bytes per second. -/
def byteRate (format : Wave64Format) : Nat := format.sampleRate * format.blockAlign

/-- The number that stands for the kind of values. -/
def tag (format : Wave64Format) : Nat := if format.float then 3 else 1

/-- The format chunk. -/
def chunk (format : Wave64Format) : List UInt8 :=
  Wave64.formatGuid ++ littleEndian 8 (Wave64.chunkHeaderSize + 16) ++
    littleEndian 2 format.tag ++ littleEndian 2 format.channels ++
    littleEndian 4 format.sampleRate ++ littleEndian 4 format.byteRate ++
    littleEndian 2 format.blockAlign ++ littleEndian 2 format.bitsPerSample

end Wave64Format

/-- A Wave64 file that is being written. -/
structure Wave64Writer where
  /-- The attributes of the file. -/
  format : Wave64Format
  /-- Writes into the file. -/
  output : BufferedWriter
  /-- Bytes of values so far. -/
  dataWritten : Nat := 0
  deriving DecidableEq, Repr

namespace Wave64Writer

/-- Begins a file with a header whose sizes are zero. All of it but the size of the data chunk goes
out at once. -/
def start (format : Wave64Format) (content : List UInt8) : Wave64Writer × List UInt8 :=
  let output : BufferedWriter := {}
  let (output, content) := output.write Wave64.riffGuid content
  let (output, content) := output.flush content
  let (output, content) := output.write (littleEndian 8 0 ++ Wave64.waveGuid) content
  let (output, content) := output.write format.chunk content
  let (output, content) := output.write Wave64.dataGuid content
  let (output, content) := output.flush content
  let (output, content) := output.write (littleEndian 8 0) content
  ({ format, output }, content)

/-- Appends bytes of values. -/
def write (writer : Wave64Writer) (data content : List UInt8) : Wave64Writer × List UInt8 :=
  let (output, content) := writer.output.write data content
  ({ writer with output, dataWritten := writer.dataWritten + data.length }, content)

/-- Puts the sizes into the header and goes back to the end of the data. -/
def finish (writer : Wave64Writer) (content : List UInt8) : Wave64Writer × List UInt8 :=
  let (output, content) := writer.output.flush content
  let position := output.position
  let (output, content) := output.seek Wave64.dataSizeOffset content
  let (output, content) :=
    output.write (littleEndian 8 (writer.dataWritten + Wave64.chunkHeaderSize)) content
  let (output, content) := output.seek Wave64.fileSizeOffset content
  let (output, content) := output.write (littleEndian 8 position) content
  let (output, content) := output.seek position content
  ({ writer with output }, content)

/-- Puts the bytes that are held back into the content. -/
def flush (writer : Wave64Writer) (content : List UInt8) : Wave64Writer × List UInt8 :=
  let (output, content) := writer.output.flush content
  ({ writer with output }, content)

end Wave64Writer

end SampleDemux
