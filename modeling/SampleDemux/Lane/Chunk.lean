import SampleDemux.BitReader
import SampleDemux.Lane.Supply
import SampleDemux.Plan.Chunk

/-!
# Reading chunks

A chunk is read as a whole, its words are put into the order in which bits are taken, every unit is
extracted in the order of the bits, and the samples are then delivered in the order of their call
numbers. No sample is delivered of a chunk that is not there in full.
-/

namespace SampleDemux

/-- Where the samples of a stream go. -/
structure Binding where
  /-- The record that goes with every sample. -/
  record : StreamRecord
  /-- Number of the sink. -/
  sink : Nat
  deriving DecidableEq

/-- A chunk plan whose streams have sinks. -/
structure ChunkRunner where
  /-- The plan. -/
  plan : ChunkPlan
  /-- The sinks of the plan's streams, in the order of the plan. -/
  bindings : List Binding
  deriving DecidableEq

namespace ChunkRunner

variable {W S : Type}

/-- Enters streams into a registry and makes their sinks, up to the first that cannot be made. -/
def bindStreams (kind : SinkKind W S) :
    List StreamRecord → Registry W S → Except ConvertError (List Binding) × Registry W S
  | [], registry => (.ok [], registry)
  | record :: rest, registry =>
    let (record, registry) := registry.recordOrInsert record
    match registry.sink kind record.id with
    | (.error error, registry) => (.error error, registry)
    | (.ok sink, registry) =>
      match bindStreams kind rest registry with
      | (.error error, registry) => (.error error, registry)
      | (.ok bindings, registry) => (.ok (⟨record, sink⟩ :: bindings), registry)

/-- Enters the streams of a plan and makes their sinks. -/
def attach (kind : SinkKind W S) (plan : ChunkPlan) (registry : Registry W S) :
    Except ConvertError ChunkRunner × Registry W S :=
  match bindStreams kind plan.streams registry with
  | (.error error, registry) => (.error error, registry)
  | (.ok bindings, registry) => (.ok ⟨plan, bindings⟩, registry)

/-- The value of the next unit and the reader behind it; unused bits give no value. -/
def extractUnit (reader : BitReader) (unit : PlanUnit) :
    Except BitError (Option Sample × BitReader) :=
  match unit.kind with
  | .padding => (reader.skip unit.bits).map fun reader => (none, reader)
  | .sample _ decoder _ =>
    (reader.sample decoder).map fun (sample, reader) => (some sample, reader)

/-- Extracts units one after the other; the result is their values and the reader behind them. -/
def extract (reader : BitReader) :
    List PlanUnit → Except BitError (List (Option Sample) × BitReader)
  | [] => .ok ([], reader)
  | unit :: rest =>
    match extractUnit reader unit with
    | .error error => .error error
    | .ok (value, reader) =>
      match extract reader rest with
      | .error error => .error error
      | .ok (values, reader) => .ok (value :: values, reader)

/-- A reader over the bytes of a chunk, in the order in which the plan takes bits. -/
def bitReader (plan : ChunkPlan) (data : List UInt8) : BitReader :=
  match plan.shift with
  | .left =>
    { order := .msbFirst, data := (plan.wordSize.reorder data plan.endian .big).toArray }
  | .right =>
    { order := .lsbFirst, data := (plan.wordSize.reorder data plan.endian .little).toArray }

/-- The values of the plan's units in the bytes of a chunk. -/
def values (plan : ChunkPlan) (data : List UInt8) : Except BitError (List (Option Sample)) :=
  (extract (bitReader plan data) plan.units).map (·.1)

/-- The samples among the values, each with its binding, in the order of their call numbers. -/
def deliveries (runner : ChunkRunner) (values : List (Option Sample)) : List Delivery :=
  let values := values.toArray
  let units := runner.plan.units.toArray
  runner.plan.dispatchOrder.filterMap fun index =>
    match values[index]?, units[index]? with
    | some (some sample), some unit =>
      match unit.stream?.bind (runner.bindings[·]?) with
      | some binding => some ⟨binding.sink, sample, binding.record⟩
      | none => none
    | _, _ => none

/-- Delivers samples up to the first that is not taken, and counts them. -/
def deliverAll (lane : String) (count : Nat) : List Delivery → Process (Except ConvertError Nat)
  | [] => .done (.ok count)
  | delivery :: rest =>
    .deliver delivery fun
      | .accepted => deliverAll lane (count + 1) rest
      | .refused cause => .done (.error (.sink delivery.record.id cause))
      | .panicked => .done (.error (.workerPanicked lane))

/-- Reads one chunk from the bytes at hand and delivers its samples. The result is the number of
samples, or none if the source was at its end. -/
def executeNext (runner : ChunkRunner) (lane : String) (source : ByteSource) :
    Process (Except ConvertError (Option Nat) × ByteSource) :=
  let size := runner.plan.sizeBytes
  let read := source.read size
  let source := read.source
  match read.outcome with
  | .error error => .done (.error (.source lane error), source)
  | .ok .empty => .done (.ok none, source)
  | .ok (.part got) =>
    .done (.error (.source lane (.truncated (source.position - got) size got)), source)
  | .ok .full =>
    match values runner.plan read.data with
    | .error error => .done (.error (.source lane (.readFailed error.message)), source)
    | .ok values =>
      (deliverAll lane 0 (runner.deliveries values)).map fun outcome =>
        (outcome.map some, source)

/-- Reads one chunk and delivers its samples. -/
def execute (runner : ChunkRunner) (lane : String) (source : ByteSource) :
    Process (Except ConvertError (Option Nat) × ByteSource) :=
  (source.fetchRead runner.plan.sizeBytes).bind (runner.executeNext lane)

end ChunkRunner

end SampleDemux
