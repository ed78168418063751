/-!
# Catalogues

A catalogue holds one value per key, in ascending order of the keys. All changes go through one
operation, which finds the key's place and gives the value there, or its absence, to a function.
-/

namespace SampleDemux

/-- Values by key, kept in ascending order of the keys. -/
structure Catalog (κ α : Type) where
  /-- Keys with their values. -/
  entries : List (κ × α) := []
  deriving DecidableEq, Repr

namespace Catalog

variable {κ α : Type}

instance : Inhabited (Catalog κ α) := ⟨{}⟩

/-- A catalogue without entries. -/
def empty : Catalog κ α := {}

/-- The keys, in ascending order. -/
def keys (catalog : Catalog κ α) : List κ := catalog.entries.map (·.1)

/-- The values, in the order of their keys. -/
def values (catalog : Catalog κ α) : List α := catalog.entries.map (·.2)

/-- Whether there are no entries. -/
def isEmpty (catalog : Catalog κ α) : Bool := catalog.entries.isEmpty

/-- Gives every value to a function. -/
def map {β : Type} (catalog : Catalog κ α) (f : α → β) : Catalog κ β :=
  ⟨catalog.entries.map fun (key, value) => (key, f value)⟩

section Lookup

variable [DecidableEq κ]

/-- The value of a key. -/
def find? (catalog : Catalog κ α) (key : κ) : Option α :=
  (catalog.entries.find? fun entry => decide (entry.1 = key)).map (·.2)

variable [LT κ] [DecidableLT κ]

/-- The entries after the value of a key was changed, or added at its place. -/
def alterEntries (key : κ) (change : Option α → α) : List (κ × α) → List (κ × α)
  | [] => [(key, change none)]
  | (other, value) :: rest =>
    if key = other then (other, change (some value)) :: rest
    else if key < other then (key, change none) :: (other, value) :: rest
    else (other, value) :: alterEntries key change rest

/-- Changes the value of a key, or adds one. -/
def alter (catalog : Catalog κ α) (key : κ) (change : Option α → α) : Catalog κ α :=
  ⟨alterEntries key change catalog.entries⟩

/-- Adds a value unless the key has one. -/
def insertNew (catalog : Catalog κ α) (key : κ) (value : α) : Catalog κ α :=
  catalog.alter key fun present => present.getD value

/-- Sets the value of a key. -/
def insert (catalog : Catalog κ α) (key : κ) (value : α) : Catalog κ α :=
  catalog.alter key fun _ => value

end Lookup

end Catalog

end SampleDemux
