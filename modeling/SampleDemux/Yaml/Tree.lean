import SampleDemux.Decimal.Style
import SampleDemux.Yaml.Quoting

/-!
# Writing trees

A tree is a scalar or a mapping. A mapping is written with one key to a line and its value on the
same line, or below it with more indentation if the value is a mapping. A key that is long or has
several lines is written after a question mark, and its value after a colon on a line of its own.
-/

namespace SampleDemux.Yaml

/-- A scalar value. -/
inductive Scalar where
  /-- A text. -/
  | text (value : String)
  /-- An integer. -/
  | integer (value : Int)
  /-- A floating-point number. -/
  | number (value : Float)
  /-- A truth value. -/
  | truth (value : Bool)
  deriving DecidableEq

/-- A value with its parts. -/
inductive Tree where
  /-- A scalar. -/
  | scalar (value : Scalar)
  /-- Values by key, in order. -/
  | mapping (entries : List (Scalar × Tree))

/-- A text as a tree. -/
def Tree.text (value : String) : Tree := .scalar (.text value)

/-- A count as a tree. -/
def Tree.count (value : Nat) : Tree := .scalar (.integer value)

/-- A floating-point number as a tree. -/
def Tree.number (value : Float) : Tree := .scalar (.number value)

/-- A mapping whose keys are texts. -/
def Tree.record (fields : List (String × Tree)) : Tree :=
  .mapping (fields.map fun (key, value) => (.text key, value))

/-- Numbers have at most 16 digits before the point and at most four zeros after it, or an exponent;
a whole number keeps its point. -/
def numberStyle : NumberStyle where
  tie := .toEven
  isPositional point := -5 < point ∧ point ≤ 16
  wholeSuffix := ".0"
  nan := ".nan"
  infinity := ".inf"

namespace Scalar

/-- The text of a scalar; its further lines have an indentation. -/
def write (indent : Nat) : Scalar → List Char
  | text value => writeText indent value
  | integer value => (toString value).toList
  | number value => (numberStyle.render value).toList
  | truth value => (if value then "true" else "false").toList

/-- Most bytes of a key on the line of its value. -/
def maxSimpleKeyBytes : Nat := 128

/-- Whether a key can be on the line of its value. -/
def isSimpleKey : Scalar → Bool
  | text value => !value.toList.any isBreak && value.utf8ByteSize ≤ maxSimpleKeyBytes
  | _ => true

end Scalar

/-- Characters with a line end, unless they end with one. -/
def closeLine (chars : List Char) : List Char :=
  if chars.getLast?.any isBreak then chars else chars ++ ['\n']

mutual

/-- A tree after its key's colon; `inline` says whether a mapping may begin on the same line. -/
def Tree.writeAfterColon (indent : Nat) (inline : Bool) : Tree → List Char
  | .scalar value => closeLine (' ' :: value.write (indent + 2))
  | .mapping [] => [' ', '\x7b', '\x7d', '\n']
  | .mapping (entry :: entries) =>
    if inline then ' ' :: writeEntries (indent + 2) false (entry :: entries)
    else '\n' :: writeEntries (indent + 2) true (entry :: entries)

/-- The entries of a mapping; `atLineStart` says whether the first one still needs its
indentation. -/
def writeEntries (indent : Nat) (atLineStart : Bool) : List (Scalar × Tree) → List Char
  | [] => []
  | (key, value) :: rest =>
    let margin := if atLineStart then spaces indent else []
    let head :=
      if key.isSimpleKey then margin ++ key.write (indent + 2) ++ [':']
      else
        margin ++ closeLine ('?' :: ' ' :: key.write (indent + 2)) ++ spaces indent ++ [':']
    head ++ value.writeAfterColon indent (!key.isSimpleKey) ++ writeEntries indent true rest

end

/-- A whole tree as a text. -/
def Tree.render : Tree → String
  | .scalar value => String.ofList (closeLine (value.write 2))
  | .mapping [] => "\x7b\x7d\n"
  | .mapping (entry :: entries) => String.ofList (writeEntries 0 true (entry :: entries))

end SampleDemux.Yaml
