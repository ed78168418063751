import SampleDemux.Catalog
import SampleDemux.Decimal.Style
import SampleDemux.Plan.Lane

/-!
# Listings of descriptors

A listing shows the plans of all lanes, block by block and chunk by chunk, and then every stream
once. A stream that several lanes declare is shown as the first of them declares it.
-/

namespace SampleDemux

namespace Listing

/-- Plans all lanes of a descriptor. A lane that has no plan is named with the reason. -/
def plans (descriptor : Descriptor) : Except (String × DescriptorError) (List LanePlan) :=
  descriptor.lanes.mapM fun lane =>
    match LanePlan.build descriptor lane with
    | .error error => .error (lane.id, error)
    | .ok plan => .ok plan

/-- The records of all streams of some lanes; of several the first one stays. -/
def streams (plans : List LanePlan) : Catalog String StreamRecord :=
  let records :=
    plans.flatMap fun lane => lane.blocks.flatMap fun block => block.chunks.flatMap (·.streams)
  records.foldl (fun catalog record => catalog.insertNew record.id record) {}

/-- A frequency in megahertz with six decimal places. -/
def megahertz (frequency : Float) : String := renderPlaces 6 (frequency / 1e6) ++ " MHz"

/-- A text after as many spaces as a width wants. -/
def padLeft (width : Nat) (text : String) : String :=
  String.ofList (List.replicate (width - text.length) ' ') ++ text

/-- A text before as many spaces as a width wants. -/
def padRight (width : Nat) (text : String) : String :=
  text ++ String.ofList (List.replicate (width - text.length) ' ')

/-- A line with what its value is called. -/
def entry (margin : Nat) (label value : String) : String :=
  padRight 28 (String.ofList (List.replicate margin ' ') ++ label) ++ value

/-- A name with a capital first letter. -/
def capitalized (name : String) : String :=
  match name.toList with
  | [] => ""
  | c :: rest => String.ofList (c.toUpper :: rest)

/-- The line of a unit. -/
def unitLine (streams : List StreamRecord) (position : Nat) (unit : PlanUnit) : String :=
  let head := s!"      {padLeft 5 (toString position)}  {padLeft 3 (toString unit.bits)} bits  "
  match unit.kind with
  | .padding => head ++ "padding"
  | .sample stream _ callOrder =>
    let id := (streams[stream]?.map (·.id)).getD ""
    head ++ s!"{padRight 16 id} call {callOrder}"

/-- The lines of a chunk. -/
def chunkLines (units : Bool) (index : Nat) (chunk : ChunkPlan) : List String :=
  let bytes := chunk.wordSize.bytes
  let endian := capitalized chunk.endian.name
  let shift := capitalized chunk.shift.name
  [s!"    Chunk {index}",
    entry 6 "Words"
      s!"{chunk.sizeBytes / bytes} x {bytes} bytes, {endian} endian, shift {shift}",
    entry 6 "Units"
      s!"{chunk.sampleCount} samples, {chunk.paddingBits} padding bits of {chunk.capacityBits}"] ++
  if units then chunk.units.mapIdx (unitLine chunk.streams) else []

/-- The lines of a block. -/
def blockLines (units : Bool) (index : Nat) (block : BlockPlan) : List String :=
  let cycles :=
    match block.cycles with
    | .untilEnd => "until end of input"
    | .count cycles => toString cycles
  [s!"  Block {index}",
    entry 4 "Cycles" cycles,
    entry 4 "Header / footer" s!"{block.sizeHeader} / {block.sizeFooter} bytes",
    entry 4 "Bytes per cycle" (toString block.cycleBytes)] ++
  (block.chunks.mapIdx (chunkLines units)).flatten

/-- The lines of a lane. -/
def laneLines (units : Bool) (lane : LanePlan) : List String :=
  let system := s!"{lane.system.id} ({megahertz lane.system.baseFrequency})"
  [s!"Lane {lane.id}",
    entry 2 "File" lane.file.url,
    entry 2 "Offset" s!"{lane.file.offset} bytes",
    entry 2 "System" system] ++
  (lane.blocks.mapIdx (blockLines units)).flatten ++ [""]

/-- The lines of a stream. -/
def streamLines (record : StreamRecord) : List String :=
  [s!"  Stream {record.id}",
    entry 4 "Sample rate" (megahertz record.sampleFrequency),
    entry 4 "Quantization"
      s!"{record.quantization} bits, {record.format.name} {record.encoding.name}",
    entry 4 "Complex" (if record.isComplex then "true" else "false"),
    entry 4 "Center frequency" (megahertz record.centerFrequency),
    entry 4 "Translated frequency" (megahertz record.translatedFrequency),
    entry 4 "Delay bias" (NumberStyle.plain.render record.delayBias ++ " s")]

/-- The lines of a listing. -/
def lines (units : Bool) (plans : List LanePlan) : List String :=
  ["", "Recording Descriptor", "====================", ""] ++ plans.flatMap (laneLines units) ++
    ["Stream Information"] ++ (streams plans).values.flatMap streamLines ++ [""]

/-- A listing as a text. -/
def render (units : Bool) (plans : List LanePlan) : String :=
  String.join ((lines units plans).map (· ++ "\n"))

end Listing

end SampleDemux
