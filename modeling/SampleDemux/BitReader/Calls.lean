import SampleDemux.BitReader

/-!
# Calls to a bit reader

The bits of a chunk are asked for by one call after the other, on a reader that moves as it goes.
What moves it are requests for some of its bits, and a request for bits that are not there may leave
it anywhere. A read is one request. A skip counts the bits that are left before it makes any
request, and then makes as many as it needs, for a request names no more bits than 32 bits can say.
-/

namespace SampleDemux

/-- What a bit reader is asked for. -/
inductive BitCall where
  /-- So many bits as a number. -/
  | get (count : Nat)
  /-- Passing over so many bits. -/
  | skip (count : Nat)
  deriving DecidableEq, Repr

/-- The bits that a call is about. -/
def BitCall.width : BitCall → Nat
  | get count => count
  | skip count => count

/-- The most bits that one request passes over. -/
def maxPassedBits : Nat := 0xffffffff

namespace BitReader

section Calls

-- Where a request leaves a reader that does not have so many bits.
variable (leftAt : BitReader → Nat → Nat)

/-- The reader behind a request that failed. -/
def stranded (reader : BitReader) (count : Nat) : BitReader :=
  { reader with position := leftAt reader count }

/-- Asks for bits as a number. A read past the end says where it left the reader. -/
def answerGet (reader : BitReader) (count : Nat) : Except BitError Nat × BitReader :=
  match reader.get count with
  | .ok (value, reader) => (.ok value, reader)
  | .error (.readPastEnd count _) =>
    let reader := reader.stranded leftAt count
    (.error (.readPastEnd count reader.position), reader)
  | .error error => (.error error, reader.stranded leftAt count)

/-- Passes over bits by one request. -/
def passOver (reader : BitReader) (count : Nat) : Except BitError Unit × BitReader :=
  if reader.available < count then
    (.error (.readPastEnd count reader.position), reader.stranded leftAt count)
  else (.ok (), { reader with position := reader.position + count })

/-- Passes over bits by as many requests as that takes, up to the first that fails. -/
def passOverAll (reader : BitReader) (count : Nat) : Except BitError Unit × BitReader :=
  if count = 0 then (.ok (), reader)
  else
    match reader.passOver leftAt (min count maxPassedBits) with
    | (.error error, reader) => (.error error, reader)
    | (.ok (), reader) => passOverAll reader (count - min count maxPassedBits)
termination_by count
decreasing_by
  have : 0 < maxPassedBits := by decide
  omega

/-- Asks for passing over bits. -/
def answerSkip (reader : BitReader) (count : Nat) : Except BitError Unit × BitReader :=
  if reader.available < count then (.error (.skipPastEnd count reader.position), reader)
  else reader.passOverAll leftAt count

/-- Answers a call; a skip has no number. -/
def answer (reader : BitReader) : BitCall → Except BitError (Option Nat) × BitReader
  | .get count =>
    let (value, reader) := reader.answerGet leftAt count
    (value.map some, reader)
  | .skip count =>
    let (outcome, reader) := reader.answerSkip leftAt count
    (outcome.map fun _ => none, reader)

/-- Answers calls one after the other, up to the first that fails. -/
def answerAll (reader : BitReader) :
    List BitCall → Except BitError (List (Option Nat)) × BitReader
  | [] => (.ok [], reader)
  | call :: rest =>
    match reader.answer leftAt call with
    | (.error error, reader) => (.error error, reader)
    | (.ok value, reader) =>
      match answerAll reader rest with
      | (.error error, reader) => (.error error, reader)
      | (.ok values, reader) => (.ok (value :: values), reader)

end Calls

end BitReader

end SampleDemux
