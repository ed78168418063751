import SampleDemux.Decimal.Reading
import SampleDemux.Yaml.Cell

/-!
# Reading names

Anchors and aliases are words of letters, digits, hyphens and underscores. A tag is a handle between
exclamation marks and a suffix of address characters, or a whole address between angle brackets.
Directives give the version of a document or the address that a handle stands for. An address is a
list of bytes, because escapes can give bytes that are no text.
-/

namespace SampleDemux.Yaml

/-- Whether a character may be in a word. -/
def isWordChar (c : Char) : Bool := c.isAlphanum || c = '-' || c = '_'

/-- The characters of a word and what follows it. -/
def wordFrom (cells : List Cell) : List Char × List Cell :=
  ((cells.takeWhile (isWordChar ·.char)).map (·.char), cells.dropWhile (isWordChar ·.char))

/-- Whether a character may follow an anchor or an alias. -/
def mayFollowAnchor (c : Char) : Bool :=
  isWordEnd c || ['?', ':', ',', ']', '\x7d', '%', '@', '\x60'].contains c

/-- Reads the name of an anchor or an alias. -/
def anchorFrom? (cells : List Cell) : Option (String × List Cell) :=
  match wordFrom cells with
  | ([], _) => none
  | (word, rest) =>
    if mayFollowAnchor (charAt rest 0) then some (String.ofList word, rest) else none

/-- Characters of an address that are not in words. -/
def addressMarks : List Char :=
  [';', '/', '?', ':', '@', '&', '=', '+', '$', '.', '!', '~', '*', '\x27', '(', ')']

/-- Whether a character may be in an address; brackets and commas may be if it is a whole one. -/
def isAddressChar (whole : Bool) (c : Char) : Bool :=
  isWordChar c || addressMarks.contains c || (whole && [',', '[', ']'].contains c)

/-- The bytes of an address. -/
abbrev Address := List UInt8

/-- The address of a text. -/
def Address.ofString (text : String) : Address := text.toUTF8.toList

/-- The bytes that follow the first byte of a character. -/
def furtherBytes? (first : Nat) : Option Nat :=
  if first < 0x80 then some 0
  else if first / 0x20 = 0x6 then some 1
  else if first / 0x10 = 0xe then some 2
  else if first / 0x8 = 0x1e then some 3
  else none

/-- The bytes that are missing after an escaped one, if so many were missing before it. -/
def missingAfter? (missing byte : Nat) : Option Nat :=
  match missing with
  | 0 => furtherBytes? byte
  | missing + 1 => if byte / 0x40 = 0x2 then some missing else none

/-- Reads the bytes of an address, of which so many are missing to the end of an escaped character.
A percent sign and two digits give a byte, and a byte that begins a character is followed by the
escapes of the others; that these are a character is not asked for. -/
def addressBytes? (whole : Bool) : Nat → Nat → List Cell → Option (Address × List Cell)
  | 0, _, cells => some ([], cells)
  | limit + 1, missing, cells =>
    let c := charAt cells 0
    if c = '%' then
      match digits? 16 [charAt cells 1, charAt cells 2] with
      | none => none
      | some byte =>
        match missingAfter? missing byte with
        | none => none
        | some missing =>
          (addressBytes? whole limit missing (cells.drop 3)).map fun (bytes, rest) =>
            (UInt8.ofNat byte :: bytes, rest)
    else if 0 < missing then none
    else if isAddressChar whole c then
      (addressBytes? whole limit 0 (cells.drop 1)).map fun (bytes, rest) =>
        (UInt8.ofNat c.toNat :: bytes, rest)
    else some ([], cells)

/-- Reads an address, which ends before a byte of zero. -/
def addressFrom? (whole : Bool) (cells : List Cell) : Option (Address × List Cell) :=
  (addressBytes? whole cells.length 0 cells).map fun (bytes, rest) =>
    (bytes.takeWhile (· ≠ 0), rest)

/-- Reads an address that has a character at least. -/
def someAddressFrom? (whole : Bool) (cells : List Cell) : Option (Address × List Cell) :=
  (addressFrom? whole cells).filter fun (_, rest) => rest.length < cells.length

/-- Reads an exclamation mark, a word, and a second exclamation mark if there is one. -/
def handleFrom (cells : List Cell) : String × List Cell :=
  let (word, rest) := wordFrom (cells.drop 1)
  if charAt rest 0 = '!' then (String.ofList ('!' :: word ++ ['!']), rest.drop 1)
  else (String.ofList ('!' :: word), rest)

/-- Whether a handle has a second exclamation mark. -/
def isFullHandle (handle : String) : Bool :=
  2 ≤ handle.length && handle.toList.getLast? = some '!'

/-- Reads a tag: its handle and its suffix. A whole address has no handle, and neither has a lone
exclamation mark, which is its own suffix. -/
def tagFrom? (inFlow : Bool) (cells : List Cell) : Option (String × Address × List Cell) := do
  let (handle, suffix, rest) ←
    if charAt cells 1 = '<' then do
      let (address, rest) ← someAddressFrom? true (cells.drop 2)
      if charAt rest 0 ≠ '>' then none else some ("", address, rest.drop 1)
    else
      let (handle, rest) := handleFrom cells
      if isFullHandle handle then do
        let (suffix, rest) ← someAddressFrom? false rest
        some (handle, suffix, rest)
      else do
        let (suffix, rest) ← addressFrom? false rest
        let suffix := (Address.ofString handle).drop 1 ++ suffix
        if suffix = [] then some ("", .ofString "!", rest) else some ("!", suffix, rest)
  if isWordEnd (charAt rest 0) || (inFlow && charAt rest 0 = ',') then some (handle, suffix, rest)
  else none

/-- A directive. -/
inductive Directive where
  /-- The version of a document. -/
  | version (major minor : Nat)
  /-- The address that a handle stands for. -/
  | handle (handle : String) (address : Address)
  deriving DecidableEq, Repr

/-- Most digits of a version number. -/
def maxVersionDigits : Nat := 9

/-- Reads a version number. -/
def versionNumber? (cells : List Cell) : Option (Nat × List Cell) :=
  let digits := (cells.takeWhile (·.char.isDigit)).map (·.char)
  if maxVersionDigits < digits.length then none
  else (digits? 10 digits).map fun n => (n, cells.dropWhile (·.char.isDigit))

/-- Reads a directive from after its percent sign up to the end of its line. -/
def directiveFrom? (cells : List Cell) : Option (Directive × List Cell) := do
  let (word, rest) := wordFrom cells
  if !isWordEnd (charAt rest 0) then none
  let rest := skipBlanks rest
  let (directive, rest) ←
    if word = ['Y', 'A', 'M', 'L'] then do
      let (major, rest) ← versionNumber? rest
      if charAt rest 0 ≠ '.' then none
      let (minor, rest) ← versionNumber? (rest.drop 1)
      some (.version major minor, rest)
    else if word = ['T', 'A', 'G'] then do
      if charAt rest 0 ≠ '!' then none
      let (handle, rest) := handleFrom rest
      if handle ≠ "!" ∧ !isFullHandle handle then none
      if !isBlank (charAt rest 0) then none
      let (address, rest) ← someAddressFrom? true (skipBlanks rest)
      if !isWordEnd (charAt rest 0) then none
      some (.handle handle address, rest)
    else none
  let rest ← skipLineRest? rest
  return (directive, rest)

end SampleDemux.Yaml
