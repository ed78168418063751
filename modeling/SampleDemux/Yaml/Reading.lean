import SampleDemux.Yaml.Node
import SampleDemux.Yaml.Scalar

/-!
# Reading values from documents

A reading turns a node into a value, or refuses it. Aliases are followed, but not more often than a
hundred times for each start and end of a node, so a small document cannot stand for a huge value.
Nothing stands for an empty list and for a record whose fields all keep their defaults.
-/

namespace SampleDemux.Yaml

/-- Turns a node of a document into a value, and counts the aliases that were followed. -/
abbrev Reading (α : Type) := Document → Node → Nat → Option (α × Nat)

/-- A field of a record. -/
structure Field (σ : Type) where
  /-- The key. -/
  name : String
  /-- Reads the field's value and puts it into a record. -/
  read : Reading (σ → σ)

/-- A field whose value is put into a record by a function. -/
def Field.of {α σ : Type} (name : String) (read : Reading α) (put : α → σ → σ) : Field σ :=
  ⟨name, fun document node followed =>
    (read document node followed).map fun (value, followed) => (put value, followed)⟩

/-- How often aliases are followed for each start and end of a node. -/
def aliasesPerEvent : Nat := 100

/-- The node itself, or the one that it is an alias of. -/
def Document.follow? (document : Document) (node : Node) (followed : Nat) :
    Option (Node × Nat) :=
  match node with
  | .alias number =>
    if document.events * aliasesPerEvent ≤ followed then none
    else (document.anchors.lookup number).map fun target => (target, followed + 1)
  | node => some (node, followed)

/-- Whether a node is nothing. -/
def Node.isNothing : Node → Bool
  | .scalar "" .plain _ => true
  | _ => false

/-- Whether a scalar may be a number: it is plain, or a literal block with the number's tag. -/
def mayBeNumber (form : ScalarForm) (tag : Option Address) (numberTag : String) : Bool :=
  form = .plain || (form = .literal && tag = some (.ofString numberTag))

/-- The tag of integers. -/
def integerTag : String := "tag:yaml.org,2002:int"

/-- The tag of floating-point numbers. -/
def floatTag : String := "tag:yaml.org,2002:float"

/-- The name in a tag: a text after an exclamation mark. -/
def nameOfTag? (tag : Option Address) : Option String :=
  match tag with
  | some (first :: name) =>
    if first.toNat = '!'.toNat then String.fromUTF8? ⟨name.toArray⟩ else none
  | _ => none

namespace Reading

variable {α σ : Type}

/-- Follows an alias and reads the node by a function of its own. -/
def ofNode (read : Node → Option α) : Reading α := fun document node followed =>
  match document.follow? node followed with
  | none => none
  | some (node, followed) => (read node).map fun value => (value, followed)

/-- Any scalar as a text. -/
def text : Reading String :=
  ofNode fun
    | .scalar text _ _ => some text
    | _ => none

/-- A whole number below a bound. -/
def natBelow (bound : Nat) : Reading Nat :=
  ofNode fun
    | .scalar text form tag =>
      if mayBeNumber form tag integerTag then (unsigned? text).filter (· < bound) else none
    | _ => none

/-- A floating-point number. -/
def number : Reading Float :=
  ofNode fun
    | .scalar text form tag => if mayBeNumber form tag floatTag then float? text else none
    | _ => none

/-- A choice by its name, which is the scalar's text, or the name in its tag, beside which there is
nothing. -/
def choice (ofName? : String → Option α) : Reading α :=
  ofNode fun
    | .scalar text form tag =>
      match nameOfTag? tag with
      | none => ofName? text
      | some name => if form = .plain && isNull text then ofName? name else none
    | _ => none

/-- Reads nodes one after the other. -/
def each (read : Reading α) (document : Document) : List Node → Nat → Option (List α × Nat)
  | [], followed => some ([], followed)
  | node :: rest, followed =>
    match read document node followed with
    | none => none
    | some (value, followed) =>
      (each read document rest followed).map fun (values, followed) => (value :: values, followed)

/-- A list. -/
def list (read : Reading α) : Reading (List α) := fun document node followed =>
  match document.follow? node followed with
  | none => none
  | some (node, followed) =>
    match node with
    | .sequence items => each read document items followed
    | node => if node.isNothing then some ([], followed) else none

/-- Changes a record by entries. Entries of other keys are passed over, and no key comes twice. -/
def entries (fields : List (Field σ)) (document : Document) (seen : List String) (record : σ) :
    List (Node × Node) → Nat → Option (σ × Nat)
  | [], followed => some (record, followed)
  | (key, value) :: rest, followed =>
    match text document key followed with
    | none => none
    | some (name, followed) =>
      match fields.find? (·.name == name) with
      | none => entries fields document seen record rest followed
      | some field =>
        if seen.contains name then none
        else
          match field.read document value followed with
          | none => none
          | some (change, followed) =>
            entries fields document (name :: seen) (change record) rest followed

/-- A record with its defaults, changed by its entries. -/
def record (default : σ) (fields : List (Field σ)) : Reading σ := fun document node followed =>
  match document.follow? node followed with
  | none => none
  | some (node, followed) =>
    match node with
    | .mapping nodes => entries fields document [] default nodes followed
    | node => if node.isNothing then some (default, followed) else none

/-- Reads the only document of a text. -/
def ofText? (read : Reading α) (text : String) : Option α := do
  let document ← Document.ofText? text
  let (value, _) ← read document document.root 0
  return value

end Reading

end SampleDemux.Yaml
