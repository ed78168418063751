import SampleDemux.Yaml.Token

/-!
# Documents

The tokens of a text are one document: a node with its parts. Anchored nodes get numbers, and an
alias is the number of its anchor. A number counts the names that anchors had before; where that
gives a number again, it stands for the later node.
-/

namespace SampleDemux.Yaml

/-- A node of a document. -/
inductive Node where
  /-- A scalar with its tag. -/
  | scalar (text : String) (form : ScalarForm) (tag : Option Address)
  /-- A sequence. -/
  | sequence (items : List Node)
  /-- A mapping. -/
  | mapping (entries : List (Node × Node))
  /-- The node of a number. -/
  | alias (number : Nat)
  deriving Inhabited

/-- The node of no text. -/
def Node.nothing : Node := .scalar "" .plain none

/-- The state of putting nodes together. -/
structure Assembly where
  /-- What is left of the tokens. -/
  tokens : List Token
  /-- What the handles of tags stand for. -/
  handles : List (String × Address)
  /-- The numbers of the names of anchors. -/
  names : List (String × Nat) := []
  /-- The start of the node that each number was given to, later ones first. -/
  starts : List (Nat × Nat) := []
  /-- The anchored nodes by their starts. -/
  anchored : List (Nat × Node) := []
  /-- Starts and ends of nodes so far. -/
  events : Nat := 0

/-- What comes before the content of a node. -/
structure Properties where
  /-- The anchor. -/
  anchor : Option String := none
  /-- The tag. -/
  tag : Option Address := none

/-- A node and the state after it, if there is a node. -/
abbrev Assembled := Option (Node × Assembly)

namespace Assembly

/-- The state after a token. -/
def skip (state : Assembly) : Assembly := { state with tokens := state.tokens.drop 1 }

/-- The state after a start or an end of a node. -/
def count (state : Assembly) : Assembly := { state with events := state.events + 1 }

/-- The address of a tag: a handle stands for the beginning of it. -/
def address? (state : Assembly) (handle : String) (suffix : Address) : Option Address :=
  if handle = "" then some suffix else (state.handles.lookup handle).map (· ++ suffix)

/-- Takes the anchor here, if there is one. -/
def takeAnchor (state : Assembly) : Option String × Assembly :=
  match state.tokens with
  | .anchor name :: _ => (some name, state.skip)
  | _ => (none, state)

/-- Takes the tag here, if there is one. -/
def takeTag? (state : Assembly) : Option (Option Address × Assembly) :=
  match state.tokens with
  | .tag handle suffix :: _ =>
    (state.address? handle suffix).map fun address => (some address, state.skip)
  | _ => some (none, state)

/-- Takes an anchor and a tag in any order. -/
def takeProperties? (state : Assembly) : Option (Properties × Assembly) :=
  match state.takeAnchor with
  | (some anchor, state) =>
    state.takeTag?.map fun (tag, state) => ({ anchor := some anchor, tag }, state)
  | (none, state) =>
    state.takeTag?.map fun (tag, state) =>
      let (anchor, state) := if tag.isSome then state.takeAnchor else (none, state)
      ({ anchor, tag }, state)

/-- Gives a number to the node that starts here if it is anchored. -/
def number (state : Assembly) (anchor : Option String) : Assembly :=
  match anchor with
  | none => state
  | some name =>
    let number := state.names.length
    let names := (name, number) :: state.names.filter (·.1 ≠ name)
    { state with names, starts := (number, state.events) :: state.starts }

/-- Ends a node that started at a place and keeps it if it is anchored. -/
def close (state : Assembly) (anchor : Option String) (start : Nat) (node : Node) :
    Node × Assembly :=
  (node,
    { state.count with
      anchored := if anchor.isSome then (start, node) :: state.anchored else state.anchored })

/-- A scalar here. -/
def scalar (state : Assembly) (properties : Properties) (text : String) (form : ScalarForm) :
    Node × Assembly :=
  let start := state.events
  (state.number properties.anchor).close properties.anchor start
    (.scalar text form properties.tag)

/-- Nothing here. -/
def nothing (state : Assembly) : Node × Assembly := (.nothing, state.count)

/-- The token here. -/
def here (state : Assembly) : Option Token := state.tokens.head?

/-- Whether one of some tokens is here. -/
def isAt (state : Assembly) (tokens : List Token) : Bool := state.here.any tokens.contains

end Assembly

/-- Tokens before which a value in a block mapping is left out. -/
def blockValueEnds : List Token := [.key, .value, .blockEnd]

/-- Tokens before which a part of a flow mapping is left out. -/
def flowValueEnds : List Token := [.flowEntry, .flowMappingEnd]

mutual

/-- A node. Block collections are nodes only where `block` says so, and a sequence without an
indentation of its own only where `indentless` says so. A node that is nothing has to have an anchor
or a tag. -/
def node? (limit : Nat) (block indentless : Bool) (state : Assembly) :
    Assembled :=
  match limit with
  | 0 => none
  | limit + 1 =>
    match state.tokens with
    | .alias name :: _ =>
      (state.names.lookup name).map fun number => (.alias number, state.skip.count)
    | _ =>
      match state.takeProperties? with
      | none => none
      | some (properties, state) =>
        let start := state.events
        let opened := (state.number properties.anchor).count
        let closed (result : Assembled) : Assembled :=
          result.map fun (node, state) => state.close properties.anchor start node
        match state.tokens, block, indentless with
        | .blockEntry :: _, _, true => closed (indentlessItems? limit [] opened)
        | .scalar text form :: _, _, _ => some (state.skip.scalar properties text form)
        | .flowSequenceStart :: _, _, _ => closed (flowItems? limit true [] opened.skip)
        | .flowMappingStart :: _, _, _ => closed (flowEntries? limit true [] opened.skip)
        | .blockSequenceStart :: _, true, _ => closed (blockItems? limit [] opened.skip)
        | .blockMappingStart :: _, true, _ => closed (blockEntries? limit [] opened.skip)
        | _, _, _ =>
          if properties.anchor.isSome || properties.tag.isSome then
            some (state.scalar properties "" .plain)
          else none

/-- A node, or nothing before one of some tokens. -/
def nodeOrNothing? (limit : Nat) (block indentless : Bool) (ends : List Token)
    (state : Assembly) : Assembled :=
  match limit with
  | 0 => none
  | limit + 1 => if state.isAt ends then some state.nothing else node? limit block indentless state

/-- The value after a colon, or nothing. -/
def value? (limit : Nat) (block indentless : Bool) (ends : List Token) (state : Assembly) :
    Assembled :=
  match limit with
  | 0 => none
  | limit + 1 =>
    if state.isAt [.value] then nodeOrNothing? limit block indentless ends state.skip
    else some state.nothing

/-- The items of a block sequence, after the ones so far. -/
def blockItems? (limit : Nat) (items : List Node) (state : Assembly) : Assembled :=
  match limit with
  | 0 => none
  | limit + 1 =>
    match state.tokens with
    | .blockEntry :: _ =>
      match nodeOrNothing? limit true false [.blockEntry, .blockEnd] state.skip with
      | none => none
      | some (item, state) => blockItems? limit (item :: items) state
    | .blockEnd :: _ => some (.sequence items.reverse, state.skip)
    | _ => none

/-- The items of a sequence without an indentation of its own, after the ones so far. -/
def indentlessItems? (limit : Nat) (items : List Node) (state : Assembly) :
    Assembled :=
  match limit with
  | 0 => none
  | limit + 1 =>
    match state.tokens with
    | .blockEntry :: _ =>
      match nodeOrNothing? limit true false (.blockEntry :: blockValueEnds) state.skip with
      | none => none
      | some (item, state) => indentlessItems? limit (item :: items) state
    | _ => some (.sequence items.reverse, state)

/-- The entries of a block mapping, after the ones so far. -/
def blockEntries? (limit : Nat) (entries : List (Node × Node)) (state : Assembly) :
    Assembled :=
  match limit with
  | 0 => none
  | limit + 1 =>
    match state.tokens with
    | .key :: _ =>
      match nodeOrNothing? limit true true blockValueEnds state.skip with
      | none => none
      | some (key, state) =>
        match value? limit true true blockValueEnds state with
        | none => none
        | some (value, state) => blockEntries? limit ((key, value) :: entries) state
    | .blockEnd :: _ => some (.mapping entries.reverse, state.skip)
    | _ => none

/-- The items of a flow sequence, after the ones so far. A key in it is a mapping of its own. -/
def flowItems? (limit : Nat) (first : Bool) (items : List Node) (state : Assembly) :
    Assembled :=
  match limit with
  | 0 => none
  | limit + 1 =>
    if state.isAt [.flowSequenceEnd] then some (.sequence items.reverse, state.skip)
    else if !first && !state.isAt [.flowEntry] then none
    else
      let state := if first then state else state.skip
      if state.isAt [.flowSequenceEnd] then some (.sequence items.reverse, state.skip)
      else
        let item :=
          if state.isAt [.key] then flowPair? limit state.skip else node? limit false false state
        match item with
        | none => none
        | some (item, state) => flowItems? limit false (item :: items) state

/-- A mapping of one entry in a flow sequence, from after the mark of its key. A token that ends the
key before it began is passed over. -/
def flowPair? (limit : Nat) (state : Assembly) : Assembled :=
  match limit with
  | 0 => none
  | limit + 1 =>
    let ends : List Token := [.flowEntry, .flowSequenceEnd]
    let state := state.count
    let key :=
      if state.isAt (.value :: ends) then some state.skip.nothing
      else node? limit false false state
    match key with
    | none => none
    | some (key, state) =>
      match value? limit false false ends state with
      | none => none
      | some (value, state) => some (.mapping [(key, value)], state.count)

/-- The entries of a flow mapping, after the ones so far. An entry without the mark of a key has no
value. -/
def flowEntries? (limit : Nat) (first : Bool) (entries : List (Node × Node)) (state : Assembly) :
    Assembled :=
  match limit with
  | 0 => none
  | limit + 1 =>
    if state.isAt [.flowMappingEnd] then some (.mapping entries.reverse, state.skip)
    else if !first && !state.isAt [.flowEntry] then none
    else
      let state := if first then state else state.skip
      if state.isAt [.flowMappingEnd] then some (.mapping entries.reverse, state.skip)
      else if state.isAt [.key] then
        match nodeOrNothing? limit false false (.value :: flowValueEnds) state.skip with
        | none => none
        | some (key, state) =>
          match value? limit false false flowValueEnds state with
          | none => none
          | some (value, state) => flowEntries? limit false ((key, value) :: entries) state
      else
        match node? limit false false state with
        | none => none
        | some (key, state) =>
          let (value, state) := state.nothing
          flowEntries? limit false ((key, value) :: entries) state

end

/-- A document. -/
structure Document where
  /-- The outermost node. -/
  root : Node
  /-- The nodes of numbers. -/
  anchors : List (Nat × Node)
  /-- Starts and ends of nodes. -/
  events : Nat

/-- The handles that stand for something in every document. -/
def defaultHandles : List (String × Address) :=
  [("!", .ofString "!"), ("!!", .ofString "tag:yaml.org,2002:")]

/-- Takes the directives of a document: at most one version, which is known, and handles that differ
from each other. -/
def takeDirectives? (versioned : Bool) (handles : List (String × Address)) :
    List Token → Option (List (String × Address) × List Token)
  | .directive (.version major minor) :: rest =>
    if versioned ∨ major ≠ 1 ∨ (minor ≠ 1 ∧ minor ≠ 2) then none
    else takeDirectives? true handles rest
  | .directive (.handle handle address) :: rest =>
    if handles.any (·.1 == handle) then none
    else takeDirectives? versioned ((handle, address) :: handles) rest
  | tokens => some (handles, tokens)

/-- Whether a document that has begun with its mark has no content. -/
def isBare : List Token → Bool
  | [] | .directive _ :: _ | .documentStart :: _ | .documentEnd :: _ => true
  | _ => false

/-- Calls of functions that are enough for so many tokens. -/
def enoughCalls (tokens : List Token) : Nat := 4 * tokens.length + 8

/-- The node of a document's tokens and what follows it. -/
def rootOf? (handles : List (String × Address)) (explicit : Bool) (tokens : List Token) :
    Assembled :=
  let state : Assembly := { tokens, handles := handles ++ defaultHandles }
  if explicit && isBare tokens then some state.nothing
  else node? (enoughCalls tokens) true false state

/-- The only document of a list of tokens. -/
def Document.ofTokens? (tokens : List Token) : Option Document := do
  if tokens.isEmpty then some ⟨.nothing, [], 1⟩
  else
    let (handles, rest) ← takeDirectives? false [] tokens
    let (root, state) ←
      match rest with
      | .documentStart :: rest => rootOf? handles true rest
      | _ => if rest.length = tokens.length then rootOf? handles false tokens else none
    if !(state.tokens.all (· == .documentEnd)) then none
    let anchors := state.starts.filterMap fun (number, start) =>
      (state.anchored.lookup start).map fun node => (number, node)
    return ⟨root, anchors, state.events⟩

/-- The only document of a text. -/
def Document.ofText? (text : String) : Option Document :=
  (tokens? text).bind Document.ofTokens?

end SampleDemux.Yaml
