import SampleDemux.Plan.Chunk

/-!
# Block plans

A block is read in cycles: a header that is skipped, the chunks, and a footer that is skipped. A
cycle takes at least one byte, so a block that goes on until the input ends does come to an end.
-/

namespace SampleDemux

/-- How often a block is read before the lane goes on to the next one. -/
inductive CycleLimit where
  /-- Until the input ends. -/
  | untilEnd
  /-- So many cycles. -/
  | count (cycles : Nat)
  deriving DecidableEq, Repr, Inhabited

namespace CycleLimit

/-- The limit of a declared number of cycles. -/
def ofCycles (cycles : Nat) : CycleLimit :=
  if cycles = 0 then .untilEnd else .count cycles

/-- Whether no cycle is left after so many. -/
def isExhausted (limit : CycleLimit) (done : Nat) : Bool :=
  match limit with
  | untilEnd => false
  | count cycles => cycles ≤ done

end CycleLimit

/-- The layout of one block. -/
structure BlockPlan where
  /-- Number of cycles. -/
  cycles : CycleLimit
  /-- Bytes to skip before the chunks. -/
  sizeHeader : Nat
  /-- Bytes to skip after the chunks. -/
  sizeFooter : Nat
  /-- The chunks of one cycle. -/
  chunks : List ChunkPlan
  deriving DecidableEq

/-- The sum of two sizes, or the largest size if it does not fit in 64 bits. -/
def saturatingAdd (a b : Nat) : Nat := min (a + b) (sizeLimit - 1)

namespace BlockPlan

/-- Bytes of one cycle, header and footer included. -/
def cycleBytes (plan : BlockPlan) : Nat :=
  plan.chunks.foldl (fun bytes chunk => saturatingAdd bytes chunk.sizeBytes)
    (saturatingAdd plan.sizeHeader plan.sizeFooter)

/-- The plan of a block. -/
def build (descriptor : Descriptor) (system : System) (block : BlockDecl) :
    Except DescriptorError BlockPlan :=
  match block.chunks.mapM (ChunkPlan.build descriptor system) with
  | .error error => .error error
  | .ok chunks =>
    let plan : BlockPlan :=
      ⟨.ofCycles block.cycles, block.sizeHeader, block.sizeFooter, chunks⟩
    if plan.cycleBytes = 0 then .error .emptyBlock else .ok plan

end BlockPlan

end SampleDemux
