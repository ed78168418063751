import SampleDemux.Lane.Block
import SampleDemux.Plan.Lane

/-!
# Running lanes

A lane reads its blocks in the order of their declarations, each for its number of cycles, and
starts over after the last one until the input ends. A block without a number of cycles keeps the
lane. A lane is run step by step, one cycle each; a cycle takes at least one byte, so the bytes that
are left bound the number of steps.
-/

namespace SampleDemux

/-- Totals of a lane so far. -/
structure LaneSummary where
  /-- Identifier of the lane. -/
  lane : String
  /-- Completed cycles. -/
  cycles : Nat := 0
  /-- Bytes of these cycles. -/
  bytes : Nat := 0
  /-- Samples of these cycles. -/
  samples : Nat := 0
  deriving DecidableEq, Repr

/-- How a step of a lane came out. -/
inductive Step where
  /-- A cycle of so many bytes and samples. -/
  | cycle (bytes samples : Nat)
  /-- The lane is finished. -/
  | endOfInput
  deriving DecidableEq, Repr

/-- A lane that is being read. -/
structure Lane where
  /-- Identifier of the lane. -/
  id : String
  /-- The blocks, in the order in which they are read. -/
  blocks : List BlockRunner
  /-- The input. -/
  source : ByteSource
  /-- Place of the current block. -/
  blockIndex : Nat := 0
  /-- Completed cycles of the current block. -/
  blockCycles : Nat := 0
  /-- Totals so far. -/
  summary : LaneSummary
  /-- Whether the end of the input was reached. -/
  finished : Bool := false
  deriving DecidableEq

namespace Lane

variable {W S : Type}

/-- Attaches sinks to blocks one after the other, up to the first that fails. -/
def attachBlocks (kind : SinkKind W S) :
    List BlockPlan → Registry W S → Except ConvertError (List BlockRunner) × Registry W S
  | [], registry => (.ok [], registry)
  | plan :: rest, registry =>
    match BlockRunner.attach kind plan registry with
    | (.error error, registry) => (.error error, registry)
    | (.ok block, registry) =>
      match attachBlocks kind rest registry with
      | (.error error, registry) => (.error error, registry)
      | (.ok blocks, registry) => (.ok (block :: blocks), registry)

/-- Passes over the bytes before the first block. -/
def skipOffset (lane : String) (offset : Nat) (source : ByteSource) :
    Except ConvertError ByteSource :=
  match source.skip offset with
  | (.error error, _) => .error (.source lane error)
  | (.ok .full, source) => .ok source
  | (.ok .empty, _) => .error (.source lane (.truncated 0 offset 0))
  | (.ok (.part got), _) => .error (.source lane (.truncated 0 offset got))

/-- Starts a lane over a source: passes over the file's offset, and then attaches sinks to the
blocks. -/
def start (kind : SinkKind W S) (plan : LanePlan) (source : ByteSource)
    (registry : Registry W S) : Except ConvertError Lane × Registry W S :=
  let (source, registry) := (source.fetchSkip plan.file.offset).run kind registry
  match skipOffset plan.id plan.file.offset source with
  | .error error => (.error error, registry)
  | .ok source =>
    match attachBlocks kind plan.blocks registry with
    | (.error error, registry) => (.error error, registry)
    | (.ok blocks, registry) =>
      (.ok { id := plan.id, blocks, source, summary := { lane := plan.id } }, registry)

/-- Bytes read so far, the offset included. -/
def position (lane : Lane) : Nat := lane.source.position

/-- The lane at the block whose turn it is: the next one after the last cycle of the current one. -/
def turn (lane : Lane) : Lane :=
  match lane.blocks[lane.blockIndex]? with
  | none => lane
  | some block =>
    if block.cycles.isExhausted lane.blockCycles then
      { lane with blockIndex := (lane.blockIndex + 1) % lane.blocks.length, blockCycles := 0 }
    else lane

/-- The lane after a cycle. -/
def afterCycle (lane : Lane) (bytes samples : Nat) : Lane :=
  { lane with
    blockCycles := lane.blockCycles + 1
    summary :=
      { lane.summary with
        cycles := lane.summary.cycles + 1
        bytes := lane.summary.bytes + bytes
        samples := lane.summary.samples + samples } }

/-- Runs one cycle of the block whose turn it is. A step that fails is not counted. -/
def step (lane : Lane) : Process (Except ConvertError Step × Lane) :=
  if lane.finished then .done (.ok .endOfInput, lane)
  else
    let lane := lane.turn
    match lane.blocks[lane.blockIndex]? with
    | none => .done (.ok .endOfInput, { lane with finished := true })
    | some block =>
      (block.runCycle lane.id lane.source).map fun (outcome, source) =>
        let lane := { lane with source }
        match outcome with
        | .error error => (.error error, lane)
        | .ok .endOfInput => (.ok .endOfInput, { lane with finished := true })
        | .ok (.completed bytes samples) =>
          (.ok (.cycle bytes samples), lane.afterCycle bytes samples)

/-- What an observer sees after a step. -/
structure Sight where
  /-- Bytes read so far. -/
  position : Nat
  /-- Whether the lane is finished. -/
  finished : Bool
  deriving DecidableEq, Repr

/-- How driving a lane came out. -/
structure Drive where
  /-- The lane's totals, or the error that stopped it. -/
  outcome : Except ConvertError LaneSummary
  /-- What an observer saw after each step that did not fail, in order. -/
  seen : List Sight
  /-- The lane afterwards. -/
  lane : Lane

/-- Runs at most so many steps, until the lane is finished or a step fails. What was seen so far is
given in reverse. -/
def driveSteps (seen : List Sight) : Nat → Lane → Process Drive
  | 0, lane => .done ⟨.ok lane.summary, seen.reverse, lane⟩
  | steps + 1, lane =>
    lane.step.bind fun
      | (.error error, lane) => .done ⟨.error error, seen.reverse, lane⟩
      | (.ok .endOfInput, lane) =>
        .done ⟨.ok lane.summary, (⟨lane.position, lane.finished⟩ :: seen).reverse, lane⟩
      | (.ok (.cycle ..), lane) =>
        driveSteps (⟨lane.position, lane.finished⟩ :: seen) steps lane

/-- Runs a lane until it is finished or a step fails. One step more than there are bytes left is
always enough. -/
def drive (lane : Lane) : Process Drive := driveSteps [] (lane.source.bound + 1) lane

/-- Runs a lane until it is finished or a step fails, unobserved. -/
def run (lane : Lane) : Process (Except ConvertError LaneSummary × Lane) :=
  lane.drive.map fun drive => (drive.outcome, drive.lane)

/-- Closes the input; the lane is finished. -/
def close (lane : Lane) : Lane :=
  { lane with source := lane.source.close, finished := true }

end Lane

end SampleDemux
