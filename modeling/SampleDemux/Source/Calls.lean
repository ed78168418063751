import SampleDemux.Source

/-!
# Requests as loops of calls

A reader is asked by calls. A call has room for so many bytes and gives some of them, as few as the
reader likes, or none at the end of the input; it may also be interrupted, or fail, before the end
of the input and behind it. A request to a
source is a loop over such calls. A read writes into its buffer, behind what is filled, and asks for
the room that is left there. A skip copies what it skips through a buffer of its own, so a call asks
for no more than that buffer holds. Both loops make an interrupted call again and leave off at a
call that gives nothing. The position moves once, after the loop, and not at all if a call failed.
-/

namespace SampleDemux

namespace Reader

/-- What one call of a reader gives. -/
inductive CallResult where
  /-- Bytes, or none at the end of the input. -/
  | served (data : List UInt8)
  /-- It was interrupted; the call may be made again. -/
  | interrupted
  /-- It failed, and why. -/
  | failed (reason : String)
  deriving DecidableEq, Repr

/-- One call with room for so many bytes, and what the reader does afterwards. What does not fit of
a piece is handed out later. -/
def call (room : Nat) : List ReadEvent → CallResult × List ReadEvent
  | [] => (.served [], [])
  | .interrupted :: rest => (.interrupted, rest)
  | .failed reason :: rest => (.failed reason, rest)
  | .ended :: rest => (.served [], behindEnd rest)
  | .bytes data :: rest =>
    if data = [] then call room rest
    else
      match data.drop room with
      | [] => (.served data, rest)
      | left => (.served (data.take room), .bytes left :: rest)

/-- The bytes and the events that are left, counted together. -/
def size (events : List ReadEvent) : Nat := (bytesOf events).length + events.length

/-- Every call uses something up, except at the end of the input or without room. -/
theorem size_lt_of_call {room : Nat} {events : List ReadEvent} {result : CallResult}
    {rest : List ReadEvent} (h : call room events = (result, rest))
    (hresult : result ≠ .served []) : size rest < size events := by
  induction events with
  | nil => cases h; exact absurd rfl hresult
  | cons event events ih =>
    cases event with
    | interrupted => cases h; exact Nat.lt_succ_self _
    | failed reason => cases h; exact Nat.lt_succ_self _
    | ended => cases h; exact absurd rfl hresult
    | bytes piece =>
      unfold call at h
      by_cases hpiece : piece = []
      · rw [if_pos hpiece] at h
        have hlater := ih h
        simp only [size, bytesOf, hpiece, List.nil_append, List.length_cons] at hlater ⊢
        omega
      · rw [if_neg hpiece] at h
        have hpositive := List.length_pos_iff.mpr hpiece
        split at h
        · cases h
          simp only [size, bytesOf, List.length_append, List.length_cons]
          omega
        · cases h
          have hroom : room ≠ 0 := fun hroom => hresult (by rw [hroom]; rfl)
          simp only [size, bytesOf, List.length_append, List.length_cons, List.length_drop]
          omega

/-- Writes bytes into a buffer, behind its first ones. -/
def writeBehind (buffer : List UInt8) (filled : Nat) (data : List UInt8) : List UInt8 :=
  buffer.take filled ++ data ++ buffer.drop (filled + data.length)

/-- How the loop of a read ended. -/
structure Filled where
  /-- The buffer afterwards, also after a failure. -/
  buffer : List UInt8
  /-- How much of it is filled, or why a call failed. -/
  count : Except String Nat
  /-- What the reader does afterwards. -/
  rest : List ReadEvent

/-- Fills a buffer of which the first bytes are filled. -/
def fill (buffer : List UInt8) (filled : Nat) (events : List ReadEvent) : Filled :=
  if filled < buffer.length then
    match _ : call (buffer.length - filled) events with
    | (.served data, rest) =>
      if _ : data = [] then ⟨buffer, .ok filled, rest⟩
      else fill (writeBehind buffer filled data) (filled + data.length) rest
    | (.interrupted, rest) => fill buffer filled rest
    | (.failed reason, rest) => ⟨buffer, .error reason, rest⟩
  else ⟨buffer, .ok filled, events⟩
termination_by size events
decreasing_by
  · exact size_lt_of_call ‹_› (by simpa using ‹_›)
  · exact size_lt_of_call ‹_› (by simp)

/-- Bytes that are copied at a time. -/
def copyRoom : Nat := 8192

/-- Copies to nowhere what a limit allows. The result is the number of bytes, with those that were
copied already, or why a call failed. -/
def copy (limit copied : Nat) (events : List ReadEvent) : Except String Nat × List ReadEvent :=
  if limit = 0 then (.ok copied, events)
  else
    match _ : call (min limit copyRoom) events with
    | (.served data, rest) =>
      if _ : data = [] then (.ok copied, rest)
      else copy (limit - data.length) (copied + data.length) rest
    | (.interrupted, rest) => copy limit copied rest
    | (.failed reason, rest) => (.error reason, rest)
termination_by size events
decreasing_by
  · exact size_lt_of_call ‹_› (by simpa using ‹_›)
  · exact size_lt_of_call ‹_› (by simp)

end Reader

/-- A request to a source. -/
inductive SourceRequest where
  /-- Fills a buffer that holds these bytes. -/
  | read (buffer : List UInt8)
  /-- Passes over so many bytes. -/
  | skip (count : Nat)
  /-- Closes the source. -/
  | close
  deriving DecidableEq, Repr

/-- What a request comes to. -/
structure SourceAnswer where
  /-- How the request ended; closing has no outcome. -/
  outcome : Option (Except SourceError Fill)
  /-- What the buffer of a read holds afterwards; none for the other requests. -/
  buffer : List UInt8
  /-- The source's position afterwards. -/
  position : Nat

namespace ByteSource

/-- Fills a buffer by calls. -/
def readInto (source : ByteSource) (buffer : List UInt8) :
    Except SourceError Fill × List UInt8 × ByteSource :=
  match source.reader with
  | none => (.error .closed, buffer, source)
  | some reader =>
    let filled := Reader.fill buffer 0 reader.events
    let source := { source with reader := some ⟨filled.rest⟩ }
    match filled.count with
    | .error reason => (.error (.readFailed reason), filled.buffer, source)
    | .ok count =>
      (.ok (.of buffer.length count), filled.buffer,
        { source with position := source.position + count })

/-- Passes over bytes by calls. -/
def skipOver (source : ByteSource) (count : Nat) : Except SourceError Fill × ByteSource :=
  match source.reader with
  | none => (.error .closed, source)
  | some reader =>
    let (copied, rest) := Reader.copy count 0 reader.events
    let source := { source with reader := some ⟨rest⟩ }
    match copied with
    | .error reason => (.error (.readFailed reason), source)
    | .ok copied =>
      (.ok (.of count copied), { source with position := source.position + copied })

/-- Serves a request. -/
def serve (source : ByteSource) : SourceRequest → SourceAnswer × ByteSource
  | .read buffer =>
    let (outcome, buffer, source) := source.readInto buffer
    (⟨some outcome, buffer, source.position⟩, source)
  | .skip count =>
    let (outcome, source) := source.skipOver count
    (⟨some outcome, [], source.position⟩, source)
  | .close => (⟨none, [], source.position⟩, source.close)

/-- Serves requests one after the other. -/
def serveAll (source : ByteSource) : List SourceRequest → List SourceAnswer × ByteSource
  | [] => ([], source)
  | request :: rest =>
    let (answer, source) := source.serve request
    let (answers, source) := source.serveAll rest
    (answer :: answers, source)

end ByteSource

end SampleDemux
