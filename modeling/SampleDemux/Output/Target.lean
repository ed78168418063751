import SampleDemux.Dyadic
import SampleDemux.Output.LittleEndian
import SampleDemux.Path

/-!
# Output files of streams

The samples of a stream go into a file of their own beside a base path, as values of one type. The
name of the file is made of the base name and of the stream's identity, in which only letters,
digits, hyphens, underscores and dots stay as they are. A second file describes the first one.
-/

namespace SampleDemux

/-- The type of written values. -/
inductive SampleType where
  /-- Integers of 8 bits. -/
  | int8
  /-- Integers of 16 bits. -/
  | int16
  /-- Integers of 32 bits. -/
  | int32
  /-- Floating-point numbers of single precision. -/
  | float32
  deriving DecidableEq, Repr, Inhabited

namespace SampleType

/-- Every type. -/
def all : List SampleType := [int8, int16, int32, float32]

/-- Bits of a value. -/
def bits : SampleType → Nat
  | int8 => 8
  | int16 => 16
  | int32 | float32 => 32

/-- Whether values are floating-point numbers. -/
def isFloat : SampleType → Bool
  | float32 => true
  | _ => false

/-- The name of the type. -/
def name : SampleType → String
  | int8 => "i8"
  | int16 => "i16"
  | int32 => "i32"
  | float32 => "f32"

/-- The type of a name. -/
def ofName? (text : String) : Option SampleType := all.find? (·.name == text)

/-- The bytes of a value. Integers are rounded, and the nearest one stands for a value out of
range. -/
def encode (type : SampleType) (value : Float) : List UInt8 :=
  if type.isFloat then littleEndian (type.bits / 8) (FloatReading.ofFloat value).singleBits
  else
    let half : Int := (Nat.pow 2 (type.bits - 1) : Nat)
    littleEndianInt (type.bits / 8) (roundBetween (-half) (half - 1) value)

end SampleType

/-- How the values of a stream are kept in a file. -/
inductive Container where
  /-- Nothing but the values. -/
  | raw
  /-- A Wave64 file. -/
  | wave64
  deriving DecidableEq, Repr, Inhabited

namespace Container

/-- Every container. -/
def all : List Container := [raw, wave64]

/-- The name of the container, which its files end in. -/
def name : Container → String
  | raw => "raw"
  | wave64 => "w64"

/-- The container of a name. -/
def ofName? (text : String) : Option Container := all.find? (·.name == text)

end Container

/-- Where and how the samples of streams are written. -/
structure OutputTarget where
  /-- Directory and base name of the files. -/
  base : Path
  /-- How values are kept. -/
  container : Container := .raw
  /-- The type of the values. -/
  sampleType : SampleType := .int16
  deriving DecidableEq, Repr

/-- Whether a character of a stream's identity stays as it is in a file name. -/
def staysInFileName (c : Char) : Bool := c.isAlphanum || c = '-' || c = '_' || c = '.'

/-- The part of a file name that stands for a stream. -/
def fileStem (stream : String) : String :=
  stream.map fun c => if staysInFileName c then c else '_'

namespace OutputTarget

/-- The file with the samples of a stream. -/
def samplePath (target : OutputTarget) (stream : String) : Path :=
  target.base.withSuffix (fileStem stream ++ "." ++ target.container.name)

/-- The file that describes the samples of a stream. -/
def sidecarPath (target : OutputTarget) (stream : String) : Path :=
  target.base.withSuffix (fileStem stream ++ ".yaml")

end OutputTarget

end SampleDemux
