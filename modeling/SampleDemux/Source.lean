import SampleDemux.Error
import SampleDemux.Location

/-!
# Byte sources

A reader is what it will still do: hand out bytes in pieces, be interrupted, fail, and end. Behind
the end of its input it may still be interrupted or fail, but no byte comes any more. A byte source
serves exact byte counts over a reader and tells how a request ended: served in full, at a clean end
of the input, or cut short. Interruptions are tried again and the pieces put together, so neither
shows in an answer. A failure drops what the request had taken so far. A source may also stand for a
file, whose bytes it has only up to a place; the further ones still have to come.
-/

namespace SampleDemux

/-- One thing that a reader does. -/
inductive ReadEvent where
  /-- Hands out bytes, in one piece or in several. -/
  | bytes (data : List UInt8)
  /-- Is interrupted; the same request may be made again. -/
  | interrupted
  /-- Fails, and why. -/
  | failed (reason : String)
  /-- Hands out nothing, for the input has ended. -/
  | ended
  deriving DecidableEq, Repr

/-- Whether bytes are handed out. -/
def ReadEvent.handsOut : ReadEvent → Bool
  | bytes _ => true
  | _ => false

/-- What a reader does, in order; after all that it hands out nothing. -/
structure Reader where
  /-- The events that are left. -/
  events : List ReadEvent
  deriving DecidableEq, Repr

namespace Reader

/-- A reader that hands out bytes and never fails. -/
def ofBytes (data : List UInt8) : Reader := ⟨[.bytes data]⟩

/-- All bytes that the events hand out until the input ends. -/
def bytesOf : List ReadEvent → List UInt8
  | [] => []
  | .bytes data :: rest => data ++ bytesOf rest
  | .ended :: _ => []
  | _ :: rest => bytesOf rest

/-- What is left of events behind the end of the input: interruptions, failures and further ends. -/
def behindEnd (events : List ReadEvent) : List ReadEvent := events.filter (!·.handsOut)

/-- No bytes come behind the end of the input. -/
@[simp]
theorem bytesOf_behindEnd (events : List ReadEvent) : bytesOf (behindEnd events) = [] := by
  induction events with
  | nil => rfl
  | cons event events ih =>
    cases event with
    | bytes data => exact ih
    | interrupted => exact ih
    | failed reason => exact ih
    | ended => rfl

/-- All bytes that are left. -/
def remaining (reader : Reader) : List UInt8 := bytesOf reader.events

/-- What a request took from a reader. -/
structure Taken where
  /-- The bytes that were handed out. -/
  data : List UInt8
  /-- The failure that ended the request, if one did. -/
  failure : Option String
  /-- What the reader does afterwards. -/
  rest : List ReadEvent
  deriving DecidableEq, Repr

/-- Asks until so many bytes are there, the input ends, or the reader fails. -/
def takeEvents (count : Nat) : List ReadEvent → Taken
  | [] => ⟨[], none, []⟩
  | event :: rest =>
    if count = 0 then ⟨[], none, event :: rest⟩
    else
      match event with
      | .interrupted => takeEvents count rest
      | .failed reason => ⟨[], some reason, rest⟩
      | .ended => ⟨[], none, behindEnd rest⟩
      | .bytes data =>
        match data.drop count with
        | [] =>
          let taken := takeEvents (count - data.length) rest
          { taken with data := data ++ taken.data }
        | left => ⟨data.take count, none, .bytes left :: rest⟩

end Reader

/-- How a request ended. -/
inductive Fill where
  /-- All bytes were served. -/
  | full
  /-- No bytes were left. -/
  | empty
  /-- The input ended after so many bytes. -/
  | part (bytes : Nat)
  deriving DecidableEq, Repr

/-- How a request ended that wanted so many bytes and was served so many. -/
def Fill.of (requested served : Nat) : Fill :=
  if served = requested then .full else if served = 0 then .empty else .part served

/-- A file that is being read. -/
structure FileCursor where
  /-- Where the file is. -/
  location : Location
  /-- Bytes that have come from it. -/
  offset : Nat := 0
  deriving DecidableEq, Repr

/-- A reader, until it is closed, and the number of bytes that were served. -/
structure ByteSource where
  /-- The reader; none once closed. -/
  reader : Option Reader
  /-- Bytes served or skipped by requests that did not fail. -/
  position : Nat := 0
  /-- The file from which further bytes come, if there is one. -/
  file : Option FileCursor := none
  deriving DecidableEq, Repr

namespace ByteSource

/-- A source at the start of a reader. -/
def ofReader (reader : Reader) : ByteSource := { reader := some reader }

/-- A source that serves bytes and never fails. -/
def ofBytes (data : List UInt8) : ByteSource := ofReader (.ofBytes data)

/-- A source at the start of a file of which nothing has been read. -/
def ofFile (location : Location) : ByteSource :=
  { reader := some ⟨[]⟩, file := some { location } }

/-- Whether the source was not closed. -/
def isOpen (source : ByteSource) : Bool := source.reader.isSome

/-- The bytes that are left; a closed source has none. -/
def remaining (source : ByteSource) : List UInt8 :=
  match source.reader with
  | none => []
  | some reader => reader.remaining

/-- More bytes than any file holds. -/
def fileBound : Nat := Nat.pow 2 63

/-- A bound for the bytes that a source can still serve. -/
def bound (source : ByteSource) : Nat :=
  if source.file.isSome then source.remaining.length + fileBound else source.remaining.length

/-- How a request for bytes came out. -/
structure Read where
  /-- The bytes that were taken, also before a failure. -/
  data : List UInt8
  /-- How the request ended. -/
  outcome : Except SourceError Fill
  /-- The source afterwards. -/
  source : ByteSource

/-- Takes the next bytes. A failure leaves the position, although the bytes before it are gone. -/
def read (source : ByteSource) (count : Nat) : Read :=
  match source.reader with
  | none => ⟨[], .error .closed, source⟩
  | some reader =>
    let taken := Reader.takeEvents count reader.events
    match taken.failure with
    | some reason =>
      ⟨taken.data, .error (.readFailed reason), { source with reader := some ⟨taken.rest⟩ }⟩
    | none =>
      ⟨taken.data, .ok (.of count taken.data.length),
        { source with
          reader := some ⟨taken.rest⟩
          position := source.position + taken.data.length }⟩

/-- Passes over the next bytes. -/
def skip (source : ByteSource) (count : Nat) : Except SourceError Fill × ByteSource :=
  let result := source.read count
  (result.outcome, result.source)

/-- Closes the source; its position stays. -/
def close (source : ByteSource) : ByteSource := { source with reader := none, file := none }

end ByteSource

end SampleDemux
