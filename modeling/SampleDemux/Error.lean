import SampleDemux.Format

/-!
# What can go wrong

A descriptor can be inconsistent, a byte source can fail or end too early, a sink can refuse a
sample, and a conversion can fail for each of these reasons on one of its lanes. Each error is kept
as its cause; the wording is in one function per kind of error.
-/

namespace SampleDemux

/-- A structural problem of a descriptor, found while a plan is built. -/
inductive DescriptorError where
  /-- Words have 1, 2, 4 or 8 bytes. -/
  | unsupportedWordSize (bytes : Nat)
  /-- A chunk without words. -/
  | emptyChunk
  /-- A chunk whose size does not fit in 64 bits. -/
  | chunkTooLarge (sizeWord countWords : Nat)
  /-- A lump without streams. -/
  | emptyLump (lump : Nat)
  /-- A lump without bits. -/
  | zeroBitLump (lump : Nat)
  /-- A stream without samples. -/
  | zeroRateFactor (stream : String)
  /-- A component width that the encoding does not have. -/
  | unsupportedQuantization (stream : String) (bits : Nat) (encoding : Encoding)
  /-- A stream whose samples need more bits than it has. -/
  | streamUnderpacked (stream : String) (packed used : Nat)
  /-- A stream with unused bits and no place for them. -/
  | undefinedAlignment (stream : String) (bits : Nat)
  /-- A lump that does not fill a chunk without padding. -/
  | lumpRepeatNotIntegral (lump lumpBits capacity : Nat)
  /-- Lumps with more bits than the chunk. -/
  | chunkOverflow (used capacity : Nat)
  /-- A chunk without padding that the lumps do not fill. -/
  | unfilledChunk (used capacity : Nat)
  /-- A block whose cycles take no bytes. -/
  | emptyBlock
  /-- A lane without a file. -/
  | missingFile (lane : String)
  /-- A lane without a system. -/
  | missingSystem (lane : String)
  /-- A system that is not declared. -/
  | unknownSystem (system : String)
  /-- A stream without a band. -/
  | missingBand (stream : String)
  /-- A band that is not declared. -/
  | unknownBand (band : String)
  deriving DecidableEq, Repr

/-- The text of a descriptor error. -/
def DescriptorError.message : DescriptorError → String
  | unsupportedWordSize bytes =>
    s!"Unsupported chunk word size: {bytes} bytes (expected 1, 2, 4 or 8)"
  | emptyChunk => "Chunk must contain at least one word"
  | chunkTooLarge sizeWord countWords =>
    s!"Chunk of {countWords} x {sizeWord}-byte words is too large"
  | emptyLump lump => s!"Lump {lump} contains no streams"
  | zeroBitLump lump => s!"Lump {lump} occupies zero bits"
  | zeroRateFactor stream => s!"Stream {stream} must have a rate factor of at least 1"
  | unsupportedQuantization stream bits encoding =>
    s!"Stream {stream}: unsupported quantization of {bits} bits for {encoding.name}"
  | streamUnderpacked stream packed used =>
    s!"Stream {stream} packs {packed} bits but its samples need {used}"
  | undefinedAlignment stream bits =>
    s!"Stream {stream} has {bits} padding bits but no alignment to place them"
  | lumpRepeatNotIntegral lump lumpBits capacity =>
    s!"Lump {lump} ({lumpBits} bits) does not evenly divide the {capacity}-bit chunk and the " ++
      "chunk declares no padding"
  | chunkOverflow used capacity =>
    s!"Lumps occupy {used} bits, exceeding the chunk capacity of {capacity} bits"
  | unfilledChunk used capacity =>
    s!"Chunk leaves {used} of {capacity} bits unused and declares no padding"
  | emptyBlock => "Block consumes no bytes per cycle"
  | missingFile lane => s!"No file references lane {lane}"
  | missingSystem lane => s!"Lane {lane} references no system"
  | unknownSystem system => s!"Unknown system {system}"
  | missingBand stream => s!"Stream {stream} references no band"
  | unknownBand band => s!"Unknown band {band}"

/-- A failure of a byte source. -/
inductive SourceError where
  /-- The file could not be opened, and why. -/
  | openFailed (path reason : String)
  /-- The source was closed before. -/
  | closed
  /-- The input ended inside a region: where the region starts, its size, and how much there was. -/
  | truncated (position expected got : Nat)
  /-- Reading failed, and why. -/
  | readFailed (reason : String)
  deriving DecidableEq, Repr

namespace SourceError

/-- The text of a source error. -/
def message : SourceError → String
  | openFailed path reason => s!"Could not open {path}: {reason}"
  | closed => "Byte source is closed"
  | truncated position expected got =>
    s!"Truncated read at byte {position}: expected {expected} bytes, got {got}"
  | readFailed reason => reason

/-- The text of the error followed by the texts of its causes. -/
def chain : SourceError → List String
  | openFailed path reason => [(openFailed path reason).message, reason]
  | error => [error.message]

end SourceError

/-- Why a sink failed: a text and the texts of its causes, outermost first. -/
structure Cause where
  /-- The texts, outermost first. -/
  messages : List String
  deriving DecidableEq, Repr, Inhabited

namespace Cause

/-- A failure with one text. -/
def ofMessage (text : String) : Cause := ⟨[text]⟩

/-- The texts on one line. -/
def line (cause : Cause) : String := ": ".intercalate cause.messages

end Cause

/-- A failure of a conversion. -/
inductive ConvertError where
  /-- A converter is opened once. -/
  | alreadyOpen
  /-- Only an open converter runs. -/
  | notOpen
  /-- The plan of a lane could not be built. -/
  | descriptor (lane : String) (error : DescriptorError)
  /-- The byte source of a lane failed. -/
  | source (lane : String) (error : SourceError)
  /-- The sink of a stream failed. -/
  | sink (stream : String) (cause : Cause)
  /-- A sink panicked while it was used by a lane. -/
  | workerPanicked (lane : String)
  deriving DecidableEq, Repr

namespace ConvertError

/-- The text of a conversion error. -/
def message : ConvertError → String
  | alreadyOpen => "Converter is already open"
  | notOpen => "Converter is not open"
  | descriptor lane error => s!"Lane {lane}: {error.message}"
  | source lane error => s!"Lane {lane}: {error.message}"
  | sink stream cause => s!"Sink for stream {stream} failed: {cause.line}"
  | workerPanicked lane => s!"Lane {lane} worker panicked"

/-- The text of the error followed by the texts of its causes; a sink's texts are in its own. -/
def chain : ConvertError → List String
  | descriptor lane error => [(descriptor lane error).message, error.message]
  | source lane error => (source lane error).message :: error.chain
  | error => [error.message]

/-- Whether the descriptor, and not the data, is to blame. -/
def isDescriptorError : ConvertError → Bool
  | descriptor .. => true
  | _ => false

end ConvertError

end SampleDemux
