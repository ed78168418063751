/-!
# Characters of YAML texts

Blanks, line breaks and the characters that a text may show as they are. A text may hold more
characters than are written without an escape.
-/

namespace SampleDemux.Yaml

/-- Whether a character is a space or a tab. -/
def isBlank (c : Char) : Bool := c = ' ' ∨ c = '\t'

/-- Whether a character ends a line. -/
def isBreak (c : Char) : Bool :=
  c = '\n' ∨ c = '\r' ∨ c = '\x85' ∨ c = '\u2028' ∨ c = '\u2029'

/-- Whether a character is a blank or ends a line. -/
def isSpacing (c : Char) : Bool := isBlank c || isBreak c

/-- Whether a code point lies between two others. -/
def isBetween (low high : Nat) (c : Char) : Bool := low ≤ c.toNat ∧ c.toNat ≤ high

/-- The byte order mark, which may stand at the start of a line. -/
def byteOrderMark : Char := '\ufeff'

/-- Whether a character may be in a text. -/
def isAllowed (c : Char) : Bool :=
  c = '\t' || c = '\n' || c = '\r' || isBetween 0x20 0x7e c || c = '\x85' ||
    isBetween 0xa0 0xd7ff c || isBetween 0xe000 0xfffd c || isBetween 0x10000 0x10ffff c

/-- Whether a character is written without an escape. -/
def isPrintable (c : Char) : Bool :=
  c = '\n' || isBetween 0x20 0x7e c || isBetween 0xa0 0xd7ff c ||
    (isBetween 0xe000 0xfffd c && c ≠ byteOrderMark) || isBetween 0x10000 0x10ffff c

end SampleDemux.Yaml
