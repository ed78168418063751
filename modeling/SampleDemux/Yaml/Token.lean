import SampleDemux.Yaml.NameText
import SampleDemux.Yaml.ScalarText

/-!
# Tokens

A text is cut into tokens. Indentation opens and closes block collections, which have tokens of
their own, and what turns out to be a key gets a key token before it: wherever a key may begin its
place among the tokens is noted until its colon comes. A key has to be on one line and is not long;
where only a key can be, there has to be a colon.
-/

namespace SampleDemux.Yaml

/-- A token. The end of a text is the end of its tokens. -/
inductive Token where
  /-- A directive. -/
  | directive (directive : Directive)
  /-- The mark at the start of a document. -/
  | documentStart
  /-- The mark at the end of a document. -/
  | documentEnd
  /-- The start of a sequence by indentation. -/
  | blockSequenceStart
  /-- The start of a mapping by indentation. -/
  | blockMappingStart
  /-- The end of a collection by indentation. -/
  | blockEnd
  /-- The start of a sequence in brackets. -/
  | flowSequenceStart
  /-- The end of a sequence in brackets. -/
  | flowSequenceEnd
  /-- The start of a mapping in braces. -/
  | flowMappingStart
  /-- The end of a mapping in braces. -/
  | flowMappingEnd
  /-- The hyphen before an item. -/
  | blockEntry
  /-- The comma after an item. -/
  | flowEntry
  /-- A key follows. -/
  | key
  /-- A value follows. -/
  | value
  /-- An alias. -/
  | alias (name : String)
  /-- An anchor. -/
  | anchor (name : String)
  /-- A tag. -/
  | tag (handle : String) (suffix : Address)
  /-- A scalar. -/
  | scalar (text : String) (form : ScalarForm)
  deriving DecidableEq, Repr

/-- Where a key may have begun. -/
structure PossibleKey where
  /-- The number of flow collections around it. -/
  depth : Nat
  /-- Its place among the tokens. -/
  position : Nat
  /-- Whether nothing else can be there. -/
  isRequired : Bool
  /-- Its place in the text. -/
  cell : Cell
  deriving Repr

/-- Most characters of a key on one line. -/
def maxKeyLength : Nat := 1024

/-- The state of cutting a text into tokens. -/
structure Scanner where
  /-- What is left of the text. -/
  cells : List Cell
  /-- The tokens so far. -/
  tokens : Array Token := #[]
  /-- The number of flow collections that are open. -/
  depth : Nat := 0
  /-- Possible keys, innermost first. There is one at most for each depth. -/
  keys : List PossibleKey := []
  /-- Indentation of the innermost block collection. -/
  indent : Int := -1
  /-- Indentations of the other block collections, innermost first. -/
  indents : List Int := []
  /-- Whether a key may begin here. -/
  keyAllowed : Bool := true

namespace Scanner

/-- Whether a flow collection is open. -/
def inFlow (scanner : Scanner) : Bool := 0 < scanner.depth

/-- Adds a token. -/
def push (scanner : Scanner) (token : Token) : Scanner :=
  { scanner with tokens := scanner.tokens.push token }

/-- Adds a token and passes over so many characters. -/
def take (scanner : Scanner) (token : Token) (length : Nat) : Scanner :=
  { scanner with tokens := scanner.tokens.push token, cells := scanner.cells.drop length }

/-- Whether a possible key cannot get its colon any more. -/
def isStale (here : Cell) (key : PossibleKey) : Bool :=
  key.cell.line < here.line || key.cell.index + maxKeyLength < here.index

/-- Forgets possible keys that cannot get their colon any more. -/
def dropStaleKeys? (here : Cell) (keys : List PossibleKey) : Option (List PossibleKey) :=
  if keys.any fun key => key.isRequired && isStale here key then none
  else some (keys.filter (!isStale here ·))

/-- The possible key of the innermost collection, and the other ones. -/
def splitKey? (scanner : Scanner) : Option (PossibleKey × List PossibleKey) :=
  match scanner.keys with
  | key :: rest => if key.depth = scanner.depth then some (key, rest) else none
  | [] => none

/-- Forgets the possible key of the innermost collection. -/
def dropKey? (scanner : Scanner) : Option Scanner :=
  match scanner.splitKey? with
  | none => some scanner
  | some (key, keys) => if key.isRequired then none else some { scanner with keys }

/-- Notes that a key may begin here. -/
def noteKey? (scanner : Scanner) (here : Cell) : Option Scanner :=
  if scanner.keyAllowed then
    scanner.dropKey?.map fun scanner =>
      let isRequired := !scanner.inFlow && decide (scanner.indent = (here.column : Int))
      let key : PossibleKey := ⟨scanner.depth, scanner.tokens.size, isRequired, here⟩
      { scanner with keys := key :: scanner.keys }
  else some scanner

/-- Opens a block collection at a column if it is indented more than the innermost one. Its token
goes to a place among the tokens. -/
def openBlock (scanner : Scanner) (column position : Nat) (token : Token) : Scanner :=
  if !scanner.inFlow && decide (scanner.indent < (column : Int)) then
    { scanner with
      tokens := scanner.tokens.insertIdxIfInBounds position token
      indent := column
      indents := scanner.indent :: scanner.indents }
  else scanner

/-- Closes block collections that are indented more than a column. -/
def closeBlocksFrom (column : Int) : List Int → Scanner → Scanner
  | [], scanner => scanner
  | outer :: rest, scanner =>
    if column < scanner.indent then
      closeBlocksFrom column rest { scanner.push .blockEnd with indent := outer, indents := rest }
    else scanner

/-- Closes block collections that are indented more than a column, unless in a flow collection. -/
def closeBlocks (scanner : Scanner) (column : Int) : Scanner :=
  if scanner.inFlow then scanner else closeBlocksFrom column scanner.indents scanner

/-- Passes over spacing and comments to the next token. Outside of flow collections a key may begin
on every new line, and where it may begin a tab is no spacing. A byte order mark counts as a column
but means nothing at the start of a line. -/
def skipSpacing (inFlow : Bool) (keyAllowed inComment : Bool) : List Cell → Bool × List Cell
  | [] => (keyAllowed, [])
  | cell :: rest =>
    let c := cell.char
    if isBreak c then skipSpacing inFlow (keyAllowed || !inFlow) false rest
    else if c = endMark then (keyAllowed, cell :: rest)
    else if inComment || c = ' ' || (c = '\t' && (inFlow || !keyAllowed)) ||
        (c = byteOrderMark && cell.column = 0) then
      skipSpacing inFlow keyAllowed inComment rest
    else if c = '#' then skipSpacing inFlow keyAllowed true rest
    else (keyAllowed, cell :: rest)

/-- Leaves all block collections. -/
def leaveBlocks? (scanner : Scanner) : Option Scanner :=
  (scanner.closeBlocks (-1)).dropKey?.map fun scanner => { scanner with keyAllowed := false }

/-- Takes a scalar as a token. -/
def takeScalar (scanner : Scanner) (scalar : ScalarText) (form : ScalarForm) : Scanner :=
  { scanner.push (.scalar scalar.text form) with cells := scalar.rest }

/-- Takes a hyphen before an item, a question mark before a key or a colon after none, which stands
where a line may begin. -/
def takeBlockMark? (scanner : Scanner) (here : Cell) (opening token : Token) (keyAllowed : Bool) :
    Option Scanner :=
  if scanner.inFlow || scanner.keyAllowed then
    let scanner := scanner.openBlock here.column scanner.tokens.size opening
    scanner.dropKey?.map fun scanner => { scanner.take token 1 with keyAllowed }
  else none

/-- Takes the colon before a value. -/
def takeValue? (scanner : Scanner) (here : Cell) : Option Scanner :=
  match scanner.splitKey? with
  | some (key, keys) =>
    let tokens := scanner.tokens.insertIdxIfInBounds key.position .key
    let scanner := { scanner with tokens, keys, keyAllowed := false }
    some ((scanner.openBlock key.cell.column key.position .blockMappingStart).take .value 1)
  | none => scanner.takeBlockMark? here .blockMappingStart .value (!scanner.inFlow)

/-- Takes the start of a flow collection. -/
def openFlow? (scanner : Scanner) (here : Cell) (token : Token) : Option Scanner :=
  (scanner.noteKey? here).map fun scanner =>
    { scanner.take token 1 with depth := scanner.depth + 1, keyAllowed := true }

/-- Takes the end of a flow collection. -/
def closeFlow? (scanner : Scanner) (token : Token) : Option Scanner :=
  scanner.dropKey?.map fun scanner =>
    { scanner.take token 1 with depth := scanner.depth - 1, keyAllowed := false }

/-- Characters that begin no plain scalar. -/
def indicators : List Char :=
  ['-', '?', ':', ',', '[', ']', '\x7b', '\x7d', '#', '&', '*', '!', '|', '>', '\x27', '\x22', '%',
    '@', '\x60']

/-- Whether a plain scalar begins with a character that another one follows. -/
def beginsPlain (inFlow : Bool) (c next : Char) : Bool :=
  !(isWordEnd c || indicators.contains c) || (c = '-' && !isBlank next) ||
    (!inFlow && (c = '?' || c = ':') && !isWordEnd next)

/-- Takes a node's first token, where a key may begin. -/
def takeContent? (scanner : Scanner) (here : Cell)
    (read : List Cell → Option (Scanner → Scanner)) : Option Scanner := do
  let scanner ← scanner.noteKey? here
  let take ← read (scanner.cells.drop 1)
  return take { scanner with keyAllowed := false }

/-- Takes the token that begins with a character here. -/
def takeToken? (scanner : Scanner) (here : Cell) : Option Scanner :=
  let c := here.char
  let next := charAt scanner.cells 1
  let inFlow := scanner.inFlow
  let named (token : String → Token) (cells : List Cell) : Option (Scanner → Scanner) :=
    (anchorFrom? cells).map fun (name, rest) scanner =>
      { scanner.push (token name) with cells := rest }
  let quoted (double : Bool) (cells : List Cell) : Option (Scanner → Scanner) :=
    (quotedFrom double .text .none [] cells).map fun scalar scanner =>
      scanner.takeScalar scalar .quoted
  if here.column = 0 && c = '%' then do
    let scanner ← scanner.leaveBlocks?
    let (directive, rest) ← directiveFrom? (scanner.cells.drop 1)
    return { scanner.push (.directive directive) with cells := rest }
  else if isMarkOf '-' scanner.cells then scanner.leaveBlocks?.map (·.take .documentStart 3)
  else if isMarkOf '.' scanner.cells then scanner.leaveBlocks?.map (·.take .documentEnd 3)
  else if c = '[' then scanner.openFlow? here .flowSequenceStart
  else if c = '\x7b' then scanner.openFlow? here .flowMappingStart
  else if c = ']' then scanner.closeFlow? .flowSequenceEnd
  else if c = '\x7d' then scanner.closeFlow? .flowMappingEnd
  else if c = ',' then
    scanner.dropKey?.map fun scanner => { scanner.take .flowEntry 1 with keyAllowed := true }
  else if c = '-' && isWordEnd next then
    scanner.takeBlockMark? here .blockSequenceStart .blockEntry true
  else if c = '?' && (inFlow || isWordEnd next) then
    scanner.takeBlockMark? here .blockMappingStart .key (!inFlow)
  else if c = ':' && (inFlow || isWordEnd next) then scanner.takeValue? here
  else if c = '*' then scanner.takeContent? here (named .alias)
  else if c = '&' then scanner.takeContent? here (named .anchor)
  else if c = '!' then do
    let scanner ← scanner.noteKey? here
    let (handle, suffix, rest) ← tagFrom? inFlow scanner.cells
    return { scanner.push (.tag handle suffix) with cells := rest, keyAllowed := false }
  else if (c = '|' || c = '>') && !inFlow then do
    let scanner ← scanner.dropKey?
    let scalar ← blockFrom (c = '|') scanner.indent (scanner.cells.drop 1)
    let form := if c = '|' then .literal else .folded
    return { scanner.takeScalar scalar form with keyAllowed := true }
  else if c = '\x27' then scanner.takeContent? here (quoted false)
  else if c = '\x22' then scanner.takeContent? here (quoted true)
  else if beginsPlain inFlow c next then do
    let scanner ← scanner.noteKey? here
    let scalar ← plainFrom inFlow (scanner.indent + 1) .none [] scanner.cells
    return { scanner.takeScalar scalar .plain with keyAllowed := scalar.endsLine }
  else none

/-- Takes tokens to the end of the text, at most so many. -/
def run? : Nat → Scanner → Option (Array Token)
  | 0, _ => none
  | limit + 1, scanner =>
    let (keyAllowed, cells) := skipSpacing scanner.inFlow scanner.keyAllowed false scanner.cells
    match cells with
    | [] => none
    | here :: _ =>
      match dropStaleKeys? here scanner.keys with
      | none => none
      | some keys =>
        let scanner := { scanner with cells, keys, keyAllowed }.closeBlocks here.column
        if here.char = endMark then scanner.leaveBlocks?.map (·.tokens)
        else
          match scanner.takeToken? here with
          | none => none
          | some scanner => run? limit scanner

end Scanner

/-- The tokens of a text. Every token but those of block collections takes a character at least. -/
def tokens? (text : String) : Option (List Token) :=
  (cells? text).bind fun cells =>
    (Scanner.run? (cells.length + 1) { cells }).map (·.toList)

end SampleDemux.Yaml
