import SampleDemux.Proofs.Sequences
import SampleDemux.Proofs.StreamRecords

/-!
# What can be built

A declared block, chunk or lane is built from its first part to its last, and the first part that
cannot be built gives the error. So a lane has a plan exactly when a file names it, its first system
is there and all its blocks can be built; and else the error names its first obstacle, in this
order.
-/

namespace SampleDemux

section Plans

variable (descriptor : Descriptor) (system : System)

/-- A declared chunk can be built. -/
def ChunkDecl.Builds (chunk : ChunkDecl) : Prop :=
  ∃ plan, ChunkPlan.build descriptor system chunk = .ok plan

/-- All chunks of a declared block can be built, and its cycle is not empty. -/
structure BlockDecl.Builds (block : BlockDecl) : Prop where
  /-- Every chunk can be built. -/
  chunks : ∀ chunk ∈ block.chunks, chunk.Builds descriptor system
  /-- Without chunks there is a header or a footer. -/
  bytes : block.chunks = [] → 0 < block.sizeHeader + block.sizeFooter

/-- What is the first thing in a declared block that cannot be built. -/
inductive BlockDecl.Obstacle (block : BlockDecl) : DescriptorError → Prop
  /-- A chunk behind others that can be built. -/
  | chunk {before after : List ChunkDecl} {failing : ChunkDecl} {error : DescriptorError}
      (hblock : block.chunks = before ++ failing :: after)
      (hbefore : ∀ chunk ∈ before, chunk.Builds descriptor system)
      (hfailing : ChunkPlan.build descriptor system failing = .error error) : Obstacle block error
  /-- There is nothing in the block. -/
  | empty (hchunks : block.chunks = []) (hheader : block.sizeHeader = 0)
      (hfooter : block.sizeFooter = 0) : Obstacle block .emptyBlock

variable {descriptor system}

/-- A block that can be built is built. -/
theorem BlockDecl.Builds.build {block : BlockDecl} (h : block.Builds descriptor system) :
    ∃ plan, BlockPlan.build descriptor system block = .ok plan := by
  rcases exists_mapM_eq_ok h.chunks with ⟨plans, hplans⟩
  let plan : BlockPlan := ⟨.ofCycles block.cycles, block.sizeHeader, block.sizeFooter, plans⟩
  have hsize : 0 < plan.size := by
    have hchunks := forall₂_of_mapM_eq_ok hplans
    rw [plan.size_eq, BlockPlan.footerStart]
    cases hdeclared : block.chunks with
    | nil =>
      have hbytes : 0 < plan.sizeHeader + plan.sizeFooter := h.bytes hdeclared
      omega
    | cons chunk chunks =>
      rw [hdeclared] at hchunks
      obtain ⟨first, rest, hfirst, -, hall⟩ := List.forall₂_cons_left_iff.mp hchunks
      have hpositive := ChunkPlan.IsBuilt.sizeBytes_pos ⟨descriptor, system, chunk, hfirst⟩
      have hsum : (plan.chunks.map (·.sizeBytes)).sum =
          first.sizeBytes + (rest.map (·.sizeBytes)).sum := by
        rw [show plan.chunks = first :: rest from hall, List.map_cons, List.sum_cons]
      omega
  have hcycle : plan.cycleBytes ≠ 0 := by
    have hlimit : 0 < sizeLimit - 1 := by decide
    rw [plan.cycleBytes_eq]
    omega
  refine ⟨plan, ?_⟩
  unfold BlockPlan.build
  rw [hplans]
  exact if_neg hcycle

/-- An obstacle in a block is the error of building it. -/
theorem BlockDecl.Obstacle.build {block : BlockDecl} {error : DescriptorError}
    (h : block.Obstacle descriptor system error) :
    BlockPlan.build descriptor system block = .error error := by
  cases h with
  | @chunk before after failing _ hblock hbefore hfailing =>
    unfold BlockPlan.build
    rw [hblock, mapM_eq_error hbefore hfailing]
  | empty hchunks hheader hfooter =>
    unfold BlockPlan.build
    rw [hchunks, hheader, hfooter]
    rfl

/-- A block that cannot be built has an obstacle. -/
theorem BlockDecl.exists_obstacle {block : BlockDecl} (h : ¬block.Builds descriptor system) :
    ∃ error, block.Obstacle descriptor system error := by
  rcases forall_or_exists_first (·.Builds descriptor system) block.chunks with
    hall | ⟨before, failing, after, hblock, hbefore, hfailing⟩
  · have hempty : ¬(block.chunks = [] → 0 < block.sizeHeader + block.sizeFooter) :=
      fun hbytes => h ⟨hall, hbytes⟩
    rw [Classical.not_imp] at hempty
    exact ⟨_, .empty hempty.1 (by omega) (by omega)⟩
  · cases hbuild : ChunkPlan.build descriptor system failing with
    | error error => exact ⟨error, .chunk hblock hbefore hbuild⟩
    | ok plan => exact absurd ⟨plan, hbuild⟩ hfailing

end Plans

variable (descriptor : Descriptor)

/-- The file that a declared lane is read from: the last one that names the lane. -/
def Descriptor.dataFile? (lane : LaneDecl) : Option DataFile :=
  (descriptor.filesForLane lane.id).getLast?

/-- A declared lane has a file and a system, and all its blocks can be built. -/
structure LaneDecl.Builds (lane : LaneDecl) (file : DataFile) : Prop where
  /-- A file names the lane. -/
  file : descriptor.dataFile? lane = some file
  /-- The first system that the lane names is there, and every block can be built with it. -/
  blocks : ∃ system, descriptor.clock? lane = some system ∧
    ∀ block ∈ lane.blocks, block.Builds descriptor system

/-- What is the first thing in a declared lane that cannot be built. -/
inductive LaneDecl.PlanObstacle (lane : LaneDecl) : DescriptorError → Prop
  /-- No file names the lane. -/
  | file (hfile : descriptor.dataFile? lane = none) : PlanObstacle lane (.missingFile lane.id)
  /-- The lane names no system. -/
  | system {file : DataFile} (hfile : descriptor.dataFile? lane = some file)
      (hsystem : lane.systems.head? = none) : PlanObstacle lane (.missingSystem lane.id)
  /-- The first system that the lane names is not there. -/
  | unknownSystem {file : DataFile} {name : String}
      (hfile : descriptor.dataFile? lane = some file) (hname : lane.systems.head? = some name)
      (hsystem : descriptor.system? name = none) : PlanObstacle lane (.unknownSystem name)
  /-- A block behind others that can be built. -/
  | block {file : DataFile} {system : System} {before after : List BlockDecl}
      {failing : BlockDecl} {error : DescriptorError}
      (hfile : descriptor.dataFile? lane = some file)
      (hsystem : descriptor.clock? lane = some system)
      (hlane : lane.blocks = before ++ failing :: after)
      (hbefore : ∀ block ∈ before, block.Builds descriptor system)
      (hfailing : failing.Obstacle descriptor system error) : PlanObstacle lane error

variable {descriptor}

/-- A lane that can be built is built. -/
theorem LaneDecl.Builds.build {lane : LaneDecl} {file : DataFile}
    (h : lane.Builds descriptor file) :
    ∃ plan, LanePlan.build descriptor lane = .ok plan ∧ plan.file = file := by
  obtain ⟨system, hsystem, hblocks⟩ := h.blocks
  obtain ⟨name, hname, hfound⟩ := Option.bind_eq_some_iff.mp hsystem
  obtain ⟨plans, hplans⟩ := exists_mapM_eq_ok fun block hblock => (hblocks block hblock).build
  obtain ⟨others, hsystems⟩ := List.head?_eq_some_iff.mp hname
  have hfile : (descriptor.filesForLane lane.id).getLast? = some file := h.file
  refine ⟨⟨lane.id, file, system, plans⟩, ?_, rfl⟩
  unfold LanePlan.build
  rw [hfile, hsystems]
  dsimp only
  rw [hfound]
  dsimp only
  rw [hplans]

/-- An obstacle in a lane's plan is the error of building it. -/
theorem LaneDecl.PlanObstacle.build {lane : LaneDecl} {error : DescriptorError}
    (h : lane.PlanObstacle descriptor error) : LanePlan.build descriptor lane = .error error := by
  unfold LanePlan.build
  cases h with
  | file hfile =>
    rw [show (descriptor.filesForLane lane.id).getLast? = none from hfile]
  | @system file hfile hsystem =>
    rw [show (descriptor.filesForLane lane.id).getLast? = some file from hfile,
      List.head?_eq_none_iff.mp hsystem]
  | @unknownSystem file name hfile hname hsystem =>
    obtain ⟨others, hsystems⟩ := List.head?_eq_some_iff.mp hname
    rw [show (descriptor.filesForLane lane.id).getLast? = some file from hfile, hsystems]
    dsimp only
    rw [hsystem]
  | @block file system before after failing _ hfile hsystem hlane hbefore hfailing =>
    obtain ⟨name, hname, hfound⟩ := Option.bind_eq_some_iff.mp hsystem
    obtain ⟨others, hsystems⟩ := List.head?_eq_some_iff.mp hname
    rw [show (descriptor.filesForLane lane.id).getLast? = some file from hfile, hsystems]
    dsimp only
    rw [hfound]
    dsimp only
    rw [hlane, mapM_eq_error (fun block hblock => (hbefore block hblock).build) hfailing.build]

/-- A lane that cannot be built has an obstacle. -/
theorem LaneDecl.exists_planObstacle {lane : LaneDecl} (h : ∀ file, ¬lane.Builds descriptor file) :
    ∃ error, lane.PlanObstacle descriptor error := by
  cases hfile : descriptor.dataFile? lane with
  | none => exact ⟨_, .file hfile⟩
  | some file =>
    cases hname : lane.systems.head? with
    | none => exact ⟨_, .system hfile hname⟩
    | some name =>
      cases hfound : descriptor.system? name with
      | none => exact ⟨_, .unknownSystem hfile hname hfound⟩
      | some system =>
        have hsystem : descriptor.clock? lane = some system := by
          rw [Descriptor.clock?, hname, Option.bind_some, hfound]
        rcases forall_or_exists_first (·.Builds descriptor system) lane.blocks with
          hall | ⟨before, failing, after, hlane, hbefore, hfailing⟩
        · exact absurd ⟨hfile, system, hsystem, hall⟩ (h file)
        · obtain ⟨error, hobstacle⟩ := BlockDecl.exists_obstacle hfailing
          exact ⟨error, .block hfile hsystem hlane hbefore hobstacle⟩

end SampleDemux
