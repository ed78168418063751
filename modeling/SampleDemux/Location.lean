/-!
# Places of files

A place is the list of the names that lead to it from the root. A file at a place may be asked for a
part of its content, which is cut off where the file ends.
-/

namespace SampleDemux

/-- A place in a file tree: the names from the root down. -/
abbrev Location := List String

namespace Location

/-- The place that a part of a path leads to. -/
def advance (location : Location) (part : List Char) : Location :=
  if part = [] ∨ part = ['.'] then location
  else if part = ['.', '.'] then location.dropLast
  else location ++ [String.ofList part]

/-- The places that parts of a path lead through, the first one included. -/
def trail : Location → List (List Char) → List Location
  | location, [] => [location]
  | location, part :: rest => location :: trail (location.advance part) rest

/-- The path of a place. -/
def text (location : Location) : String := "/" ++ "/".intercalate location

end Location

/-- A part of a file's content. -/
structure FilePart where
  /-- Where the file is. -/
  location : Location
  /-- Bytes before the part. -/
  offset : Nat
  /-- Bytes of the part, unless the file ends before. -/
  length : Nat
  deriving DecidableEq, Repr

/-- The part of a whole content. -/
def FilePart.cut (part : FilePart) (content : List UInt8) : List UInt8 :=
  (content.drop part.offset).take part.length

end SampleDemux
