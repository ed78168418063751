import SampleDemux.Plan.Block

/-!
# Lane plans

A lane plan is the resolved layout of one lane, whatever its input: the file that holds it, the
system that clocks it and the plans of its blocks. Of several files that name the lane the last one
is used, of several systems the first one.
-/

namespace SampleDemux

/-- The layout of one lane. -/
structure LanePlan where
  /-- Identifier of the lane. -/
  id : String
  /-- The file that holds the lane. -/
  file : DataFile
  /-- The system that clocks the lane. -/
  system : System
  /-- The blocks, in the order in which they are read. -/
  blocks : List BlockPlan
  deriving DecidableEq

namespace LanePlan

/-- The plan of a lane. -/
def build (descriptor : Descriptor) (lane : LaneDecl) : Except DescriptorError LanePlan :=
  match (descriptor.filesForLane lane.id).getLast? with
  | none => .error (.missingFile lane.id)
  | some file =>
    match lane.systems with
    | [] => .error (.missingSystem lane.id)
    | systemId :: _ =>
      match descriptor.system? systemId with
      | none => .error (.unknownSystem systemId)
      | some system =>
        match lane.blocks.mapM (BlockPlan.build descriptor system) with
        | .error error => .error error
        | .ok blocks => .ok ⟨lane.id, file, system, blocks⟩

end LanePlan

end SampleDemux
