import SampleDemux.Yaml.Character

/-!
# Texts with places

Every character of a text is kept with its place. The line ends of all systems become one, and the
text is closed by a NUL character, which no text may hold, so that there is always a next character.
-/

namespace SampleDemux.Yaml

/-- A character of a text and its place. -/
structure Cell where
  /-- The character. -/
  char : Char
  /-- Characters before it. -/
  index : Nat
  /-- Lines before its own. -/
  line : Nat
  /-- Characters before it on its line. -/
  column : Nat
  deriving DecidableEq, Repr

/-- The character that closes a text. -/
def endMark : Char := '\x00'

/-- Whether a character is spacing or closes the text. -/
def isWordEnd (c : Char) : Bool := c = endMark || isSpacing c

/-- Whether a character ends a line or closes the text. -/
def isLineEnd (c : Char) : Bool := c = endMark || isBreak c

/-- The line end that a character stands for. -/
def commonBreak (c : Char) : Char := if c = '\r' ∨ c = '\x85' then '\n' else c

/-- Characters with their places, from a place on. -/
def cellsFrom (index line column : Nat) : List Char → List Cell
  | [] => [⟨endMark, index, line, column⟩]
  | '\r' :: '\n' :: rest => ⟨'\n', index, line, column⟩ :: cellsFrom (index + 2) (line + 1) 0 rest
  | c :: rest =>
    if isBreak c then
      ⟨commonBreak c, index, line, column⟩ :: cellsFrom (index + 1) (line + 1) 0 rest
    else ⟨c, index, line, column⟩ :: cellsFrom (index + 1) line (column + 1) rest

/-- The characters of a text, if all of them are allowed. -/
def cells? (text : String) : Option (List Cell) :=
  if text.toList.all isAllowed then some (cellsFrom 0 0 0 text.toList) else none

/-- The character at so many characters from here. -/
def charAt (cells : List Cell) (distance : Nat) : Char :=
  match cells[distance]? with
  | some cell => cell.char
  | none => endMark

/-- Whether a document mark of three characters is here. -/
def isMarkOf (mark : Char) (cells : List Cell) : Bool :=
  (cells.head?.any (·.column = 0)) && charAt cells 0 = mark && charAt cells 1 = mark &&
    charAt cells 2 = mark && isWordEnd (charAt cells 3)

/-- Whether a document begins or ends here. -/
def isDocumentMark (cells : List Cell) : Bool := isMarkOf '-' cells || isMarkOf '.' cells

/-- Passes over spaces and tabs. -/
def skipBlanks (cells : List Cell) : List Cell := cells.dropWhile (isBlank ·.char)

/-- Passes over spaces, tabs and a comment to the next line, if nothing else is on this one. -/
def skipLineRest? (cells : List Cell) : Option (List Cell) :=
  let cells := skipBlanks cells
  let cells := if charAt cells 0 = '#' then cells.dropWhile (!isLineEnd ·.char) else cells
  match cells with
  | [] => some []
  | cell :: rest =>
    if isBreak cell.char then some rest
    else if cell.char = endMark then some (cell :: rest)
    else none

end SampleDemux.Yaml
