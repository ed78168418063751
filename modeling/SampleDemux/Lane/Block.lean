import SampleDemux.Lane.Chunk
import SampleDemux.Plan.Block

/-!
# Reading block cycles

A cycle skips the header, reads the chunks and skips the footer. Input that ends exactly where a
cycle would begin has come to its end; input that ends anywhere else is truncated, and the error
says in which region.
-/

namespace SampleDemux

/-- How a cycle came out. -/
inductive CycleOutcome where
  /-- The cycle took so many bytes and delivered so many samples. -/
  | completed (bytes samples : Nat)
  /-- The input ended where the cycle would have begun. -/
  | endOfInput
  deriving DecidableEq, Repr

/-- A block whose chunks have sinks. -/
structure BlockRunner where
  /-- Number of cycles. -/
  cycles : CycleLimit
  /-- Bytes to skip before the chunks. -/
  sizeHeader : Nat
  /-- Bytes to skip after the chunks. -/
  sizeFooter : Nat
  /-- The chunks of one cycle. -/
  chunks : List ChunkRunner
  deriving DecidableEq

namespace BlockRunner

variable {W S : Type}

/-- Attaches sinks to chunks one after the other, up to the first that fails. -/
def attachChunks (kind : SinkKind W S) :
    List ChunkPlan → Registry W S → Except ConvertError (List ChunkRunner) × Registry W S
  | [], registry => (.ok [], registry)
  | plan :: rest, registry =>
    match ChunkRunner.attach kind plan registry with
    | (.error error, registry) => (.error error, registry)
    | (.ok chunk, registry) =>
      match attachChunks kind rest registry with
      | (.error error, registry) => (.error error, registry)
      | (.ok chunks, registry) => (.ok (chunk :: chunks), registry)

/-- Attaches sinks to the chunks of a plan. -/
def attach (kind : SinkKind W S) (plan : BlockPlan) (registry : Registry W S) :
    Except ConvertError BlockRunner × Registry W S :=
  match attachChunks kind plan.chunks registry with
  | (.error error, registry) => (.error error, registry)
  | (.ok chunks, registry) =>
    (.ok ⟨plan.cycles, plan.sizeHeader, plan.sizeFooter, chunks⟩, registry)

/-- Passes over a header or a footer in the bytes at hand. The result tells whether it was there; it
may only be missing at the start of the cycle. -/
def skipNext (lane : String) (size start : Nat) (source : ByteSource) :
    Except ConvertError Bool × ByteSource :=
  let (outcome, source) := source.skip size
  match outcome with
  | .error error => (.error (.source lane error), source)
  | .ok .full => (.ok true, source)
  | .ok .empty =>
    if source.position = start then (.ok false, source)
    else (.error (.source lane (.truncated source.position size 0)), source)
  | .ok (.part got) =>
    (.error (.source lane (.truncated (source.position - got) size got)), source)

/-- Passes over a header or a footer. -/
def skipRegion (lane : String) (size start : Nat) (source : ByteSource) :
    Process (Except ConvertError Bool × ByteSource) :=
  (source.fetchSkip size).map (skipNext lane size start)

/-- Reads chunks one after the other and counts their samples. The result is none if the source was
at its end at the start of the cycle. -/
def runChunks (lane : String) (start : Nat) (samples : Nat) :
    List ChunkRunner → ByteSource → Process (Except ConvertError (Option Nat) × ByteSource)
  | [], source => .done (.ok (some samples), source)
  | chunk :: rest, source =>
    (chunk.execute lane source).bind fun
      | (.error error, source) => .done (.error error, source)
      | (.ok (some count), source) => runChunks lane start (samples + count) rest source
      | (.ok none, source) =>
        if source.position = start then .done (.ok none, source)
        else
          .done (.error (.source lane (.truncated source.position chunk.plan.sizeBytes 0)), source)

/-- Runs one cycle. -/
def runCycle (block : BlockRunner) (lane : String) (source : ByteSource) :
    Process (Except ConvertError CycleOutcome × ByteSource) :=
  let start := source.position
  (skipRegion lane block.sizeHeader start source).bind fun
    | (.error error, source) => .done (.error error, source)
    | (.ok false, source) => .done (.ok .endOfInput, source)
    | (.ok true, source) =>
      (runChunks lane start 0 block.chunks source).bind fun
        | (.error error, source) => .done (.error error, source)
        | (.ok none, source) => .done (.ok .endOfInput, source)
        | (.ok (some samples), source) =>
          (skipRegion lane block.sizeFooter start source).map fun
            | (.error error, source) => (.error error, source)
            | (.ok false, source) => (.ok .endOfInput, source)
            | (.ok true, source) =>
              (.ok (.completed (source.position - start) samples), source)

end BlockRunner

end SampleDemux
