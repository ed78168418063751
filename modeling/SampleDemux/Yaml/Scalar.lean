import SampleDemux.Decimal.Reading

/-!
# Plain scalars

A plain scalar is a text that may read as nothing, as a truth value, as an integer or as a
floating-point number. Integers may be hexadecimal, octal or binary after a mark; a decimal one
does not begin with a zero that means nothing.
-/

namespace SampleDemux.Yaml

/-- Whether a text reads as nothing. -/
def isNull (text : String) : Bool := ["", "null", "Null", "NULL", "~"].contains text

/-- Whether a text reads as a truth value. -/
def isTruthValue (text : String) : Bool :=
  ["true", "True", "TRUE", "false", "False", "FALSE"].contains text

/-- A text without a plus sign at its start. -/
def withoutPlus : List Char → List Char
  | '+' :: rest => rest
  | chars => chars

/-- Whether a text is two digits or more that begin with a zero. -/
def hasIdleZero : List Char → Bool
  | '0' :: c :: rest => (c :: rest).all Char.isDigit
  | _ => false

/-- The number of an integer without a sign. -/
def magnitude? : List Char → Option Nat
  | '0' :: 'x' :: rest => digits? 16 rest
  | '0' :: 'o' :: rest => digits? 8 rest
  | '0' :: 'b' :: rest => digits? 2 rest
  | chars => if hasIdleZero chars then none else digits? 10 chars

/-- A text read as a number that is not negative. -/
def unsigned? (text : String) : Option Nat := magnitude? (withoutPlus text.toList)

/-- A text read as an integer. -/
def integer? (text : String) : Option Int :=
  match text.toList with
  | '-' :: rest => (magnitude? rest).map fun n => -(n : Int)
  | chars => (magnitude? (withoutPlus chars)).map fun n => (n : Int)

/-- A text read as a floating-point number: an infinity, no number, or a finite decimal. -/
def float? (text : String) : Option Float :=
  let positive := withoutPlus text.toList
  if [".inf", ".Inf", ".INF"].contains (String.ofList positive) then
    some (Float.ofBits 0x7ff0000000000000)
  else if ["-.inf", "-.Inf", "-.INF"].contains text then some (Float.ofBits 0xfff0000000000000)
  else if [".nan", ".NaN", ".NAN"].contains text then some (Float.ofBits 0x7ff8000000000000)
  else
    match text.toList with
    | '-' :: rest => ((Decimal.ofChars? rest).bind (·.toFloat?)).map fun value => -value
    | _ => (Decimal.ofChars? positive).bind (·.toFloat?)

/-- The bounds within which an integer reads as one when nothing says what it is. -/
def isWideInteger (n : Int) : Bool := -(Nat.pow 2 127 : Nat) ≤ n ∧ n < (Nat.pow 2 128 : Nat)

/-- Whether a text reads as something that is not a text, or looks like a number. -/
def readsOtherwise (text : String) : Bool :=
  let unsigned :=
    match text.toList with
    | '-' :: rest => rest
    | chars => withoutPlus chars
  isNull text || isTruthValue text || hasIdleZero unsigned || (float? text).isSome ||
    (integer? text).any isWideInteger

end SampleDemux.Yaml
