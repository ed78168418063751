import SampleDemux.Decimal.Reading
import SampleDemux.Yaml.Cell

/-!
# Reading scalars

A scalar is plain, between single or double quotes, or a block. In plain and quoted texts spacing is
kept within a line, and a line end becomes a space, or the further line ends if there are any. In a
block every line counts from its indentation on; the line ends of a folded block become spaces
between lines that do not begin with a blank.
-/

namespace SampleDemux.Yaml

/-- How a scalar is given. -/
inductive ScalarForm where
  /-- Without any mark. -/
  | plain
  /-- Between quotes. -/
  | quoted
  /-- As a block whose lines are kept. -/
  | literal
  /-- As a block whose lines are folded. -/
  | folded
  deriving DecidableEq, Repr

/-- A scalar that was read. -/
structure ScalarText where
  /-- The text. -/
  text : String
  /-- Whether a line end follows that belongs to the spacing after the text. -/
  endsLine : Bool := false
  /-- What follows. -/
  rest : List Cell

/-- Spacing between two words. -/
inductive Gap where
  /-- Spaces and tabs on one line. -/
  | blanks (chars : List Char)
  /-- Line ends: the first one unless it is escaped, and the further ones. -/
  | lines (first : Option Char) (more : List Char)

namespace Gap

/-- The gap of no characters. -/
def none : Gap := .blanks []

/-- Whether there are no characters. -/
def isNone : Gap → Bool
  | blanks [] => true
  | _ => false

/-- Whether there is a line end. -/
def hasBreak : Gap → Bool
  | blanks _ => false
  | lines .. => true

/-- The gap with one more blank; next to a line end it does not count. -/
def addBlank (c : Char) : Gap → Gap
  | blanks chars => blanks (chars ++ [c])
  | lines first more => lines first more

/-- The gap with one more line end; blanks before it do not count. -/
def addBreak (c : Char) : Gap → Gap
  | blanks _ => lines (some c) []
  | lines first more => lines first (more ++ [c])

/-- What a gap stands for. -/
def fold : Gap → List Char
  | blanks chars => chars
  | lines (some '\n') [] => [' ']
  | lines (some '\n') more => more
  | lines (some c) more => c :: more
  | lines .none more => more

/-- Reversed text with a gap and a character after it. -/
def append (gap : Gap) (c : Char) (reversed : List Char) : List Char :=
  c :: (gap.fold.reverse ++ reversed)

end Gap

/-- Characters that separate the parts of a flow collection. -/
def flowSeparators : List Char := [',', '[', ']', '\x7b', '\x7d']

/-- A plain scalar that ends before a gap. -/
def plainEnd (gap : Gap) (reversed : List Char) (rest : List Cell) : ScalarText :=
  ⟨String.ofList reversed.reverse, gap.hasBreak, rest⟩

/-- Reads a plain scalar. In a flow collection it ends at a separator, elsewhere where the
indentation falls below its own; everywhere at a colon before spacing, a comment or a document
mark. -/
def plainFrom (inFlow : Bool) (indent : Int) (gap : Gap) (reversed : List Char) :
    List Cell → Option ScalarText
  | [] => some (plainEnd gap reversed [])
  | cell :: rest =>
    let c := cell.char
    if isBlank c then
      if gap.hasBreak ∧ c = '\t' ∧ cell.column < indent then none
      else plainFrom inFlow indent (gap.addBlank c) reversed rest
    else if isBreak c then plainFrom inFlow indent (gap.addBreak c) reversed rest
    else if c = endMark || (!gap.isNone &&
        ((!inFlow && cell.column < indent) || isDocumentMark (cell :: rest) || c = '#')) then
      some (plainEnd gap reversed (cell :: rest))
    else
      let next := charAt rest 0
      if inFlow && c = ':' && (next = '?' || flowSeparators.contains next) then none
      else if (c = ':' && isWordEnd next) || (inFlow && flowSeparators.contains c) then
        some (plainEnd gap reversed (cell :: rest))
      else plainFrom inFlow indent .none (gap.append c reversed) rest

/-- Escapes of one letter. -/
def letterEscapes : List (Char × Char) :=
  [('0', '\x00'), ('a', '\x07'), ('b', '\x08'), ('t', '\t'), ('\t', '\t'), ('n', '\n'),
    ('v', '\x0b'), ('f', '\x0c'), ('r', '\r'), ('e', '\x1b'), (' ', ' '), ('\x22', '\x22'),
    ('/', '/'), ('\\', '\\'), ('N', '\x85'), ('_', '\xa0'), ('L', '\u2028'), ('P', '\u2029')]

/-- Escapes of so many hexadecimal digits. -/
def codeEscapes : List (Char × Nat) := [('x', 2), ('u', 4), ('U', 8)]

/-- What the next character of a quoted text belongs to. -/
inductive QuoteState where
  /-- To the text. -/
  | text
  /-- To a single quote, which it doubles if it is one. -/
  | quote
  /-- To an escape. -/
  | escape
  /-- To a code point of which so many digits are missing. -/
  | code (missing value : Nat)

/-- The character of a code point. -/
def charOfCode? (code : Nat) : Option Char :=
  if code.isValidChar then some (Char.ofNat code) else none

/-- Reads a quoted scalar from after its first quote. -/
def quotedFrom (double : Bool) (state : QuoteState) (gap : Gap) (reversed : List Char) :
    List Cell → Option ScalarText
  | [] => none
  | cell :: rest =>
    let c := cell.char
    match state with
    | .quote =>
      if c = '\x27' then quotedFrom double .text .none (c :: reversed) rest
      else some { text := String.ofList reversed.reverse, rest := cell :: rest }
    | .escape =>
      if isBreak c then quotedFrom double .text (.lines .none []) reversed rest
      else
        match letterEscapes.lookup c, codeEscapes.lookup c with
        | some letter, _ => quotedFrom double .text .none (letter :: reversed) rest
        | .none, some digits => quotedFrom double (.code digits 0) .none reversed rest
        | .none, .none => none
    | .code missing value =>
      match digitsFrom 16 value [c] with
      | .none => none
      | some value =>
        if 1 < missing then quotedFrom double (.code (missing - 1) value) .none reversed rest
        else
          match charOfCode? value with
          | .none => none
          | some letter => quotedFrom double .text .none (letter :: reversed) rest
    | .text =>
      if isBlank c then quotedFrom double .text (gap.addBlank c) reversed rest
      else if isBreak c then quotedFrom double .text (gap.addBreak c) reversed rest
      else if c = endMark || isDocumentMark (cell :: rest) then none
      else
        let joined := gap.fold.reverse ++ reversed
        if double && c = '\x22' then some { text := String.ofList joined.reverse, rest }
        else if double && c = '\\' then quotedFrom double .escape .none joined rest
        else if !double && c = '\x27' then quotedFrom double .quote .none joined rest
        else quotedFrom double .text .none (c :: joined) rest

/-- What happens to the line ends at the end of a block. -/
inductive Chomping where
  /-- All of them are dropped. -/
  | strip
  /-- One is kept. -/
  | clip
  /-- All of them are kept. -/
  | keep
  deriving DecidableEq, Repr

/-- The chomping that a character stands for. -/
def chompingOf? (c : Char) : Option Chomping :=
  if c = '+' then some .keep else if c = '-' then some .strip else none

/-- The indentation that a character stands for, if it is a digit. -/
def stepOf? (c : Char) : Option Nat := if c.isDigit then digits? 10 [c] else none

/-- Reads the header of a block: its chomping, its own indentation or 0 if it gives none, and what
follows. -/
def blockHeader? (cells : List Cell) : Option (Chomping × Nat × List Cell) :=
  let first := charAt cells 0
  let second := charAt cells 1
  let (chomping, step, cells) :=
    match chompingOf? first, stepOf? first with
    | some chomping, _ =>
      match stepOf? second with
      | some step => (chomping, some step, cells.drop 2)
      | .none => (chomping, .none, cells.drop 1)
    | .none, some step =>
      match chompingOf? second with
      | some chomping => (chomping, some step, cells.drop 2)
      | .none => (.clip, some step, cells.drop 1)
    | .none, .none => (.clip, .none, cells)
  match step with
  | some 0 => none
  | _ => (skipLineRest? cells).map fun rest => (chomping, step.getD 0, rest)

/-- Empty lines of a block and the indentation of the next one. -/
structure BlockBreaks where
  /-- The line ends of the empty lines. -/
  breaks : List Char
  /-- The largest indentation so far. -/
  widest : Nat
  /-- What follows the indentation. -/
  rest : List Cell

/-- Passes over empty lines and the indentation of the next one. An indentation of 0 is not known
yet. -/
def blockBreaks? (indent : Nat) (breaks : List Char) (widest : Nat) :
    List Cell → Option BlockBreaks
  | [] => some ⟨breaks, widest, []⟩
  | cell :: rest =>
    let inside := indent = 0 ∨ cell.column < indent
    let widest := max widest cell.column
    if inside ∧ cell.char = ' ' then blockBreaks? indent breaks widest rest
    else if inside ∧ cell.char = '\t' then none
    else if isBreak cell.char then blockBreaks? indent (breaks ++ [cell.char]) widest rest
    else some ⟨breaks, widest, cell :: rest⟩

/-- Reads the lines of a block, at most so many. The text so far is followed by a line end and empty
lines, and `blank` says whether its last line begins with a blank. -/
def blockLines? (literal : Bool) (indent : Nat) (chomping : Chomping) :
    Nat → (reversed lineEnd breaks : List Char) → (blank : Bool) → List Cell → Option ScalarText
  | lines, reversed, lineEnd, breaks, blank, cells =>
    match lines, cells with
    | lines + 1, cell :: rest =>
      if cell.column = indent ∧ cell.char ≠ endMark then
        let beginsBlank := isBlank cell.char
        let isFolded := !literal && lineEnd = ['\n'] && !blank && !beginsBlank
        let joint := if isFolded then if breaks = [] then [' '] else breaks else lineEnd ++ breaks
        let line := ((cell :: rest).takeWhile (!isLineEnd ·.char)).map (·.char)
        let reversed := line.reverse ++ joint.reverse ++ reversed
        match (cell :: rest).dropWhile (!isLineEnd ·.char) with
        | [] => none
        | stop :: after =>
          let (lineEnd, after) :=
            if isBreak stop.char then ([stop.char], after) else ([], stop :: after)
          match blockBreaks? indent [] 0 after with
          | .none => none
          | some next =>
            blockLines? literal indent chomping lines reversed lineEnd next.breaks beginsBlank
              next.rest
      else some (finish reversed lineEnd breaks (cell :: rest))
    | _, cells => some (finish reversed lineEnd breaks cells)
where
  /-- The text with the line ends that are kept. -/
  finish (reversed lineEnd breaks : List Char) (rest : List Cell) : ScalarText :=
    let tail :=
      match chomping with
      | .strip => []
      | .clip => lineEnd
      | .keep => lineEnd ++ breaks
    { text := String.ofList (reversed.reverse ++ tail), rest }

/-- Reads a block from after its mark. Its indentation is the one that its header gives, or the one
of its first line; it is at least one more than the indentation around it. -/
def blockFrom (literal : Bool) (around : Int) (cells : List Cell) : Option ScalarText :=
  match blockHeader? cells with
  | .none => none
  | some (chomping, step, cells) =>
    let given := if step = 0 then 0 else (max around 0).toNat + step
    match blockBreaks? given [] 0 cells with
    | .none => none
    | some first =>
      let indent := if given = 0 then max first.widest (max (around + 1) 1).toNat else given
      blockLines? literal indent chomping cells.length [] [] first.breaks false first.rest

end SampleDemux.Yaml
