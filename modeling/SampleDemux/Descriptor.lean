import SampleDemux.Format

/-!
# The descriptor of a recording

A descriptor names the reference oscillators and radio bands of a receiver, the files that hold
the data, and the lanes that lay the samples out as blocks, chunks, lumps and streams. References
go by identifier and are resolved when a plan is built. A field that is left out takes its default.
-/

namespace SampleDemux

/-- Reference oscillator of a receiver. -/
structure System where
  /-- Identifier that lanes refer to. -/
  id : String := ""
  /-- Base sample frequency in hertz. -/
  baseFrequency : Float := 0
  deriving DecidableEq, Inhabited

/-- A radio band. -/
structure Band where
  /-- Identifier that streams refer to. -/
  id : String := ""
  /-- Centre of the band in hertz. -/
  centerFrequency : Float := 0
  /-- Frequency to which the centre is translated, in hertz. -/
  translatedFrequency : Float := 0
  /-- Delay of the band in seconds. -/
  delayBias : Float := 0
  deriving DecidableEq, Inhabited

/-- A file with the data of one lane. -/
structure DataFile where
  /-- Location below the recording's directory. -/
  url : String := ""
  /-- Identifier of the lane that is stored in the file. -/
  lane : String := ""
  /-- Bytes before the first block. -/
  offset : Nat := 0
  deriving DecidableEq, Inhabited

/-- Samples of one kind inside a lump. -/
structure StreamDecl where
  /-- Identity of the stream. -/
  id : String := ""
  /-- Samples in one repetition of the lump. -/
  rateFactor : Nat := 1
  /-- Bits of one repetition of the lump, unused ones included. -/
  packedBits : Nat := 8
  /-- Place of the unused bits. -/
  alignment : Alignment := .undefined
  /-- Direction in which the samples of one repetition are numbered. -/
  shift : Direction := .left
  /-- Layout of a sample. -/
  format : SampleFormat := default
  /-- Encoding of a component. -/
  encoding : Encoding := default
  /-- Bits of a component. -/
  quantization : Nat := 8
  /-- Identifiers of the bands; the first one is used. -/
  bands : List String := []
  deriving DecidableEq, Inhabited

/-- Streams that are interleaved and repeated to fill a chunk. -/
structure LumpDecl where
  /-- Direction in which the repetitions are numbered. -/
  shift : Direction := .left
  /-- The streams of one repetition, in the order of their bits. -/
  streams : List StreamDecl := []
  deriving DecidableEq, Inhabited

/-- A run of words. -/
structure ChunkDecl where
  /-- Bytes of a word. -/
  sizeWord : Nat := 1
  /-- Number of words. -/
  countWords : Nat := 1
  /-- Byte order of the words. -/
  endian : ByteOrder := .big
  /-- Place of the bits that no lump fills. -/
  padding : Padding := .none
  /-- End of the words from which bits are taken. -/
  shift : Direction := .left
  /-- The lumps, in the order of their bits. -/
  lumps : List LumpDecl := []
  deriving DecidableEq, Inhabited

/-- One past the largest size in bytes or bits that a chunk may have. -/
def sizeLimit : Nat := Nat.pow 2 64

namespace ChunkDecl

/-- Size in bytes, if it is below the limit. -/
def sizeBytes? (chunk : ChunkDecl) : Option Nat :=
  let size := chunk.sizeWord * chunk.countWords
  if size < sizeLimit then some size else none

/-- Size in bits, if both sizes are below the limit. -/
def capacityBits? (chunk : ChunkDecl) : Option Nat :=
  chunk.sizeBytes?.bind fun size => if size * 8 < sizeLimit then some (size * 8) else none

end ChunkDecl

/-- Chunks between a header and a footer, read in cycles. -/
structure BlockDecl where
  /-- Number of cycles; 0 goes on until the input ends. -/
  cycles : Nat := 0
  /-- Bytes to skip before the chunks of a cycle. -/
  sizeHeader : Nat := 0
  /-- Bytes to skip after the chunks of a cycle. -/
  sizeFooter : Nat := 0
  /-- The chunks of a cycle. -/
  chunks : List ChunkDecl := []
  deriving DecidableEq, Inhabited

/-- The layout of one file. -/
structure LaneDecl where
  /-- Identifier that files refer to. -/
  id : String := ""
  /-- Identifiers of the systems that clock the lane; the first one is used. -/
  systems : List String := []
  /-- The blocks, in the order in which they are read. -/
  blocks : List BlockDecl := []
  deriving DecidableEq, Inhabited

/-- A whole recording. -/
structure Descriptor where
  /-- Reference oscillators. -/
  systems : List System := []
  /-- Radio bands. -/
  bands : List Band := []
  /-- Data files. -/
  files : List DataFile := []
  /-- Lanes. -/
  lanes : List LaneDecl := []
  deriving DecidableEq, Inhabited

namespace Descriptor

/-- The first system of an identifier. -/
def system? (descriptor : Descriptor) (id : String) : Option System :=
  descriptor.systems.find? (·.id == id)

/-- The first band of an identifier. -/
def band? (descriptor : Descriptor) (id : String) : Option Band :=
  descriptor.bands.find? (·.id == id)

/-- All files of a lane, in the order of their declarations. -/
def filesForLane (descriptor : Descriptor) (lane : String) : List DataFile :=
  descriptor.files.filter (·.lane == lane)

end Descriptor

/-- Provenance of one decoded stream: a copy of what its declaration, its system and its band said
when the plan was built. -/
structure StreamRecord where
  /-- Identity of the stream. -/
  id : String
  /-- Base frequency of the system in hertz. -/
  baseFrequency : Float
  /-- Rate factor times base frequency, in hertz. -/
  sampleFrequency : Float
  /-- Bits of a component. -/
  quantization : Nat
  /-- Whether samples have two components. -/
  isComplex : Bool
  /-- Layout of a sample. -/
  format : SampleFormat
  /-- Encoding of a component. -/
  encoding : Encoding
  /-- Centre of the band in hertz. -/
  centerFrequency : Float
  /-- Frequency to which the centre is translated, in hertz. -/
  translatedFrequency : Float
  /-- Delay of the band in seconds. -/
  delayBias : Float
  deriving DecidableEq, Inhabited

/-- The record of a declared stream that a system clocks and a band carries. -/
def StreamRecord.ofDecl (stream : StreamDecl) (system : System) (band : Band) : StreamRecord where
  id := stream.id
  baseFrequency := system.baseFrequency
  sampleFrequency := Float.ofNat stream.rateFactor * system.baseFrequency
  quantization := stream.quantization
  isComplex := stream.format.isComplex
  format := stream.format
  encoding := stream.encoding
  centerFrequency := band.centerFrequency
  translatedFrequency := band.translatedFrequency
  delayBias := band.delayBias

end SampleDemux
