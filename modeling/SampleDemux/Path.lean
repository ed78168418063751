/-!
# Paths

A path is a text whose parts are separated by slashes. It may begin at the root or at the current
directory; elsewhere empty parts and single dots mean nothing. Two paths are the same place by name
when they begin alike and have the same other parts. Changes keep the text before the changed part
as it was written.
-/

namespace SampleDemux

/-- A path as written. -/
structure Path where
  /-- The text. -/
  text : String
  deriving DecidableEq, Repr, Inhabited

namespace Path

/-- Where a path begins. -/
inductive Anchor where
  /-- At its first part. -/
  | none
  /-- At the root. -/
  | root
  /-- At the current directory, which is written. -/
  | current
  deriving DecidableEq, Repr

/-- The text of an anchor. -/
def Anchor.chars : Anchor → List Char
  | none => []
  | root => ['/']
  | current => ['.']

/-- Where a text begins, and the text after that. -/
def anchored : List Char → Anchor × List Char
  | '/' :: rest => (.root, rest)
  | ['.'] => (.current, [])
  | '.' :: '/' :: rest => (.current, '/' :: rest)
  | chars => (.none, chars)

/-- Whether a part means nothing. -/
def isBlank (part : List Char) : Bool := part = [] ∨ part = ['.']

/-- Parts without the blank ones at the end. -/
def trimBlank (parts : List (List Char)) : List (List Char) :=
  (parts.reverse.dropWhile isBlank).reverse

/-- Where the path begins, and its parts up to the last one that means something. -/
def parts (path : Path) : Anchor × List (List Char) :=
  let (anchor, rest) := anchored path.text.toList
  (anchor, trimBlank (rest.splitOn '/'))

/-- Where the path begins, and its parts that mean something. -/
def components (path : Path) : Anchor × List (List Char) :=
  let (anchor, parts) := path.parts
  (anchor, parts.filter (!isBlank ·))

/-- The path of an anchor and parts. -/
def ofParts (anchor : Anchor) (parts : List (List Char)) : Path :=
  ⟨String.ofList (anchor.chars ++ ['/'].intercalate parts)⟩

/-- The last part, unless it leads upwards. -/
def fileName? (path : Path) : Option String :=
  match path.parts.2.getLast? with
  | none => none
  | some part => if part = ['.', '.'] then none else some (String.ofList part)

/-- The path without its last part. -/
def parent? (path : Path) : Option Path :=
  let (anchor, parts) := path.parts
  if parts.isEmpty then if anchor = .current then some ⟨""⟩ else none
  else some (ofParts anchor (trimBlank parts.dropLast))

/-- Whether a path begins at the root. -/
def isAbsolute (path : Path) : Bool := path.text.toList.head? = some '/'

/-- A path below another one; an absolute path stays as it is. -/
def join (path other : Path) : Path :=
  if other.isAbsolute then other
  else
    match path.text.toList.getLast? with
    | none => other
    | some last =>
      if last = '/' then ⟨path.text ++ other.text⟩ else ⟨path.text ++ "/" ++ other.text⟩

/-- The path with another last part, or with one more if its last part leads upwards. -/
def withFileName (path : Path) (name : String) : Path :=
  let directory := if path.fileName?.isSome then path.parent?.getD path else path
  directory.join ⟨name⟩

/-- The path with a dot and a suffix after its file name. -/
def withSuffix (path : Path) (suffix : String) : Path :=
  path.withFileName (path.fileName?.getD "" ++ "." ++ suffix)

/-- A file name up to its last dot, unless that dot is its first character. -/
def stem (name : List Char) : List Char :=
  let before := (name.reverse.dropWhile (· ≠ '.')).drop 1
  if before.isEmpty then name else before.reverse

/-- The path without the extension of its file name. -/
def withoutExtension (path : Path) : Path :=
  let (anchor, parts) := path.parts
  match path.fileName? with
  | none => path
  | some name => ofParts anchor (parts.dropLast ++ [stem name.toList])

end Path

end SampleDemux
