/-!
# Attributes of a packed recording

The words of a recording have a byte order, its bits are taken from one end of a word or from the
other, its unused bits lie at a declared place, and its samples have a format and an encoding. Each
attribute is kept by what it means: a format is real or complex with the order and the signs of its
components, an encoding is a sign bit, an integer code or a floating-point number. Their written
names are derived from that.
-/

namespace SampleDemux

/-- Order of the bytes of a word as stored. -/
inductive ByteOrder where
  /-- Most significant byte first. -/
  | big
  /-- Least significant byte first. -/
  | little
  deriving DecidableEq, Repr, Inhabited

namespace ByteOrder

/-- Every byte order. -/
def all : List ByteOrder := [big, little]

/-- The name of the byte order. -/
def name : ByteOrder → String
  | big => "big"
  | little => "little"

/-- The byte order of a name. -/
def ofName? (text : String) : Option ByteOrder := all.find? (·.name == text)

end ByteOrder

/-- Interleave direction. On a chunk it selects the end of the words from which bits are taken; on
a lump or a stream it selects the direction in which samples are numbered. -/
inductive Direction where
  /-- Most significant bits first; samples numbered upwards. -/
  | left
  /-- Least significant bits first; samples numbered downwards. -/
  | right
  deriving DecidableEq, Repr, Inhabited

namespace Direction

/-- Every direction. -/
def all : List Direction := [left, right]

/-- The name of the direction. -/
def name : Direction → String
  | left => "left"
  | right => "right"

/-- The direction of a name. -/
def ofName? (text : String) : Option Direction := all.find? (·.name == text)

end Direction

/-- Where the bits of a chunk that no lump fills are placed. -/
inductive Padding where
  /-- No bit may stay unused. -/
  | none
  /-- Before the lumps. -/
  | head
  /-- After the lumps. -/
  | tail
  deriving DecidableEq, Repr, Inhabited

namespace Padding

/-- Every padding. -/
def all : List Padding := [none, head, tail]

/-- The name of the padding. -/
def name : Padding → String
  | none => "none"
  | head => "head"
  | tail => "tail"

/-- The padding of a name. -/
def ofName? (text : String) : Option Padding := all.find? (·.name == text)

end Padding

/-- Where the unused bits of a stream are placed relative to its samples. -/
inductive Alignment where
  /-- No bit may stay unused. -/
  | undefined
  /-- The samples come first. -/
  | left
  /-- The unused bits come first. -/
  | right
  deriving DecidableEq, Repr, Inhabited

namespace Alignment

/-- Every alignment. -/
def all : List Alignment := [undefined, left, right]

/-- The name of the alignment. -/
def name : Alignment → String
  | undefined => "undefined"
  | left => "left"
  | right => "right"

/-- The alignment of a name. -/
def ofName? (text : String) : Option Alignment := all.find? (·.name == text)

end Alignment

/-- Layout of one stored sample. -/
inductive SampleFormat where
  /-- One in-phase component, stored negated or not. -/
  | real (negated : Bool)
  /-- Two components: whether the quadrature component is stored first, and which of the two are
  stored negated. -/
  | complex (quadratureFirst negatedI negatedQ : Bool)
  deriving DecidableEq, Repr

namespace SampleFormat

instance : Inhabited SampleFormat := ⟨real false⟩

/-- Every format, real ones first. -/
def all : List SampleFormat :=
  [real false, real true,
    complex false false false, complex false false true,
    complex false true false, complex false true true,
    complex true false false, complex true true false,
    complex true false true, complex true true true]

/-- Whether a sample has two components. -/
def isComplex : SampleFormat → Bool
  | real _ => false
  | complex .. => true

/-- Number of stored components of a sample. -/
def components (format : SampleFormat) : Nat :=
  if format.isComplex then 2 else 1

/-- Whether the quadrature component is stored before the in-phase one. -/
def quadratureFirst : SampleFormat → Bool
  | real _ => false
  | complex first _ _ => first

/-- Which of the (in-phase, quadrature) components are stored negated. -/
def negated : SampleFormat → Bool × Bool
  | real negatedI => (negatedI, false)
  | complex _ negatedI negatedQ => (negatedI, negatedQ)

/-- A component's name, followed by `n` when it is stored negated. -/
def componentName (name : String) (negated : Bool) : String :=
  if negated then name ++ "n" else name

/-- The components in the order in which they are stored; a real format is named `IF`. -/
def name : SampleFormat → String
  | real negated => componentName "IF" negated
  | complex false negatedI negatedQ => componentName "I" negatedI ++ componentName "Q" negatedQ
  | complex true negatedI negatedQ => componentName "Q" negatedQ ++ componentName "I" negatedI

/-- The format of a name. -/
def ofName? (text : String) : Option SampleFormat :=
  all.find? (·.name == text)

end SampleFormat

/-- A code for signed integers. -/
inductive IntegerCode where
  /-- The value plus half the range. -/
  | offsetBinary
  /-- A sign in the most significant bit, then the magnitude. -/
  | signMagnitude
  /-- The magnitude, then a sign in the least significant bit. -/
  | magnitudeSign
  /-- Two's complement. -/
  | twosComplement
  /-- The value plus half the range, in reflected Gray code. -/
  | offsetGray
  deriving DecidableEq, Repr, Inhabited

/-- Short name of an integer code. -/
def IntegerCode.name : IntegerCode → String
  | .offsetBinary => "OB"
  | .signMagnitude => "SM"
  | .magnitudeSign => "MSM"
  | .twosComplement => "TC"
  | .offsetGray => "OG"

/-- Numeric encoding of one stored component. -/
inductive Encoding where
  /-- One bit that matters: 0 is +1 and 1 is -1. -/
  | sign
  /-- A signed integer; an adjusted one stands for an odd integer, twice the plain one plus 1. -/
  | integer (code : IntegerCode) (adjusted : Bool)
  /-- IEEE 754 floating point. -/
  | float
  deriving DecidableEq, Repr

namespace Encoding

instance : Inhabited Encoding := ⟨integer .twosComplement false⟩

/-- Every encoding. -/
def all : List Encoding :=
  let codes : List IntegerCode :=
    [.offsetBinary, .signMagnitude, .magnitudeSign, .twosComplement, .offsetGray]
  [sign] ++ codes.map (integer · false) ++ codes.map (integer · true) ++ [float]

/-- Whether the encoded integers are odd ones. -/
def isAdjusted : Encoding → Bool
  | integer _ adjusted => adjusted
  | _ => false

/-- The code's name, followed by `A` when adjusted. -/
def name : Encoding → String
  | sign => "SIGN"
  | integer code adjusted => if adjusted then code.name ++ "A" else code.name
  | float => "FP"

/-- The encoding of a name. -/
def ofName? (text : String) : Option Encoding :=
  all.find? (·.name == text)

/-- The component widths that can be decoded: 32 and 64 bits for floating point, else 1 to 64. -/
def supports (encoding : Encoding) (width : Nat) : Bool :=
  match encoding with
  | float => width == 32 || width == 64
  | _ => 1 ≤ width && width ≤ 64

end Encoding

end SampleDemux
