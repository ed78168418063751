import SampleDemux.Lane.Chunk

/-!
# Reading chunks into one workspace

A chunk that is read again and again has one buffer for its bytes and one place for the value of
each unit, and both are used every time. A request writes over the bytes that were there, as far as
it gets; the words are rewritten where they stand; every unit that is extracted puts its value over
the last one. A reading that fails leaves the workspace as far as it has come.
-/

namespace SampleDemux

/-- What is kept of a chunk from one reading to the next. -/
structure Workspace where
  /-- The bytes of the chunk. -/
  buffer : List UInt8
  /-- The values of the units. -/
  values : List (Option Sample)
  deriving DecidableEq

namespace Workspace

/-- A workspace for a plan, before the first reading. -/
def fresh (plan : ChunkPlan) : Workspace :=
  ⟨List.replicate plan.sizeBytes 0, List.replicate plan.units.length none⟩

/-- Writes bytes over the first ones of the buffer. -/
def write (workspace : Workspace) (data : List UInt8) : Workspace :=
  { workspace with buffer := data ++ workspace.buffer.drop data.length }

end Workspace

namespace ChunkRunner

/-- Extracts units one after the other, each into the place of its value, up to the first that
cannot be extracted. -/
def extractInto (reader : BitReader) :
    List (Option Sample) → List PlanUnit → Except BitError Unit × List (Option Sample)
  | [], _ => (.ok (), [])
  | places, [] => (.ok (), places)
  | place :: places, unit :: units =>
    match extractUnit reader unit with
    | .error error => (.error error, place :: places)
    | .ok (value, reader) =>
      let (outcome, values) := extractInto reader places units
      (outcome, value :: values)

/-- Reads one chunk from the bytes at hand into a workspace and delivers its samples. The result is
the number of samples, or none if the source was at its end. -/
def executeNextIn (runner : ChunkRunner) (lane : String) (workspace : Workspace)
    (source : ByteSource) :
    Process (Except ConvertError (Option Nat) × ByteSource × Workspace) :=
  let size := workspace.buffer.length
  let read := source.read size
  let source := read.source
  let workspace := workspace.write read.data
  match read.outcome with
  | .error error => .done (.error (.source lane error), source, workspace)
  | .ok .empty => .done (.ok none, source, workspace)
  | .ok (.part got) =>
    .done (.error (.source lane (.truncated (source.position - got) size got)), source, workspace)
  | .ok .full =>
    let reader := bitReader runner.plan workspace.buffer
    let (outcome, values) := extractInto reader workspace.values runner.plan.units
    let workspace : Workspace := ⟨reader.data.toList, values⟩
    match outcome with
    | .error error =>
      .done (.error (.source lane (.readFailed error.message)), source, workspace)
    | .ok () =>
      (deliverAll lane 0 (runner.deliveries values)).map fun outcome =>
        (outcome.map some, source, workspace)

/-- Reads one chunk into a workspace and delivers its samples. -/
def executeIn (runner : ChunkRunner) (lane : String) (workspace : Workspace)
    (source : ByteSource) :
    Process (Except ConvertError (Option Nat) × ByteSource × Workspace) :=
  (source.fetchRead workspace.buffer.length).bind (runner.executeNextIn lane workspace)

end ChunkRunner

end SampleDemux
