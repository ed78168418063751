import SampleDemux.Yaml.Character
import SampleDemux.Yaml.Scalar

/-!
# Writing scalars

A text is written plain if that reads back as the same text. Otherwise it is quoted: in single
quotes if all its characters may be written as they are, else in double quotes with escapes. A text
of several lines is written as a literal block, which says how the text begins and ends.
-/

namespace SampleDemux.Yaml

/-- How a text is written. -/
inductive ScalarStyle where
  /-- As it is. -/
  | plain
  /-- Between single quotes. -/
  | singleQuoted
  /-- Between double quotes. -/
  | doubleQuoted
  /-- As indented lines below a header. -/
  | literal
  deriving DecidableEq, Repr

/-- Whether a text begins with spacing or has ended. -/
def endsWord : List Char → Bool
  | [] => true
  | c :: _ => c = '\x00' || isSpacing c

/-- Characters that mean something at the start of a plain text. -/
def leadingIndicators : List Char :=
  ['#', ',', '[', ']', '\x7b', '\x7d', '&', '*', '!', '|', '>', '\x27', '\x22', '%', '@', '\x60']

/-- Whether a text begins like something else than a plain text. -/
def startsOtherwise : List Char → Bool
  | [] => false
  | c :: rest =>
    leadingIndicators.contains c || ((c = '?' || c = ':' || c = '-') && endsWord rest)

/-- Whether a text begins with a document mark. -/
def startsWithMark (chars : List Char) : Bool :=
  chars.take 3 = ['-', '-', '-'] ∨ chars.take 3 = ['.', '.', '.']

/-- Whether, after a character, a key's colon or a comment begins. -/
def hasIndicator (previous : Char) : List Char → Bool
  | [] => false
  | c :: rest =>
    (c = ':' && endsWord rest) || (c = '#' && endsWord [previous]) || hasIndicator c rest

/-- Whether two neighbours of a text satisfy a relation. -/
def hasNeighbours (relation : Char → Char → Bool) : List Char → Bool
  | [] => false
  | [_] => false
  | a :: b :: rest => relation a b || hasNeighbours relation (b :: rest)

/-- Whether a text has characters or line ends that only escapes keep. -/
def needsEscapes (chars : List Char) : Bool :=
  chars.any (!isPrintable ·) || hasNeighbours (fun a b => a = ' ' && isBreak b) chars

/-- Whether a text can be written plain. -/
def allowsPlain (chars : List Char) : Bool :=
  match chars with
  | [] => true
  | first :: rest =>
    !(startsWithMark chars || startsOtherwise chars || hasIndicator first rest ||
      first = ' ' || chars.getLast? = some ' ' || chars.any isBreak || needsEscapes chars)

/-- Whether a text can be written between single quotes. -/
def allowsSingleQuotes (chars : List Char) : Bool :=
  !(needsEscapes chars || hasNeighbours (fun a b => isBreak a && b = ' ') chars)

/-- Whether a text can be written as a block. -/
def allowsBlock (chars : List Char) : Bool :=
  !(needsEscapes chars || chars.getLast? = some ' ')

/-- How a text is written. -/
def styleOf (text : String) : ScalarStyle :=
  let chars := text.toList
  if chars.contains '\n' then if allowsBlock chars then .literal else .doubleQuoted
  else if !readsOtherwise text && allowsPlain chars then .plain
  else if allowsSingleQuotes chars then .singleQuoted
  else .doubleQuoted

/-- So many spaces. -/
def spaces (count : Nat) : List Char := List.replicate count ' '

/-- Characters with an indentation at the start of every line but empty ones. -/
def indented (indent : Nat) (atLineStart : Bool) : List Char → List Char
  | [] => []
  | c :: rest =>
    if isBreak c then c :: indented indent true rest
    else if atLineStart then spaces indent ++ c :: indented indent false rest
    else c :: indented indent false rest

/-- A text between single quotes; a quote in it is written twice. -/
def singleQuoted (indent : Nat) (chars : List Char) : List Char :=
  '\x27' :: indented indent false
    (chars.flatMap (fun c => if c = '\x27' then ['\x27', '\x27'] else [c]) ++ ['\x27'])

/-- A code point with so many hexadecimal digits. -/
def hexadecimal (width : Nat) (code : Nat) : List Char :=
  let digits := (Nat.toDigits 16 code).map Char.toUpper
  List.replicate (width - digits.length) '0' ++ digits

/-- The characters with an escape of one letter. -/
def shortEscapes : List (Char × Char) :=
  [('\x00', '0'), ('\x07', 'a'), ('\x08', 'b'), ('\t', 't'), ('\n', 'n'), ('\x0b', 'v'),
    ('\x0c', 'f'), ('\r', 'r'), ('\x1b', 'e'), ('\x22', '\x22'), ('\\', '\\'), ('\x85', 'N'),
    ('\xa0', '_'), ('\u2028', 'L'), ('\u2029', 'P')]

/-- The escape of a character. -/
def escaped (c : Char) : List Char :=
  match shortEscapes.lookup c with
  | some letter => ['\\', letter]
  | none =>
    if c.toNat ≤ 0xff then '\\' :: 'x' :: hexadecimal 2 c.toNat
    else if c.toNat ≤ 0xffff then '\\' :: 'u' :: hexadecimal 4 c.toNat
    else '\\' :: 'U' :: hexadecimal 8 c.toNat

/-- A text between double quotes. -/
def doubleQuoted (chars : List Char) : List Char :=
  '\x22' :: chars.flatMap (fun c =>
    if isPrintable c && !isBreak c && c ≠ '\x22' && c ≠ '\\' then [c] else escaped c) ++ ['\x22']

/-- What the header of a literal block says about the end of the text: it has no line end, one, or
more than its last line needs. -/
def chomping (chars : List Char) : List Char :=
  match chars.reverse with
  | [] => ['-']
  | [last] => if isBreak last then ['+'] else ['-']
  | last :: before :: _ => if !isBreak last then ['-'] else if isBreak before then ['+'] else []

/-- A text as a literal block. The header gives the indentation if the text begins with a space or a
line end. -/
def literalBlock (indent : Nat) (chars : List Char) : List Char :=
  let hint :=
    match chars with
    | c :: _ => if c = ' ' || isBreak c then ['2'] else []
    | [] => []
  '|' :: hint ++ chomping chars ++ '\n' :: indented indent true chars

/-- A text as a scalar; its further lines have an indentation. -/
def writeText (indent : Nat) (text : String) : List Char :=
  match styleOf text with
  | .plain => text.toList
  | .singleQuoted => singleQuoted indent text.toList
  | .doubleQuoted => doubleQuoted text.toList
  | .literal => literalBlock indent text.toList

end SampleDemux.Yaml
