import SampleDemux.Proofs.Cycle
import Mathlib.Data.Nat.Find

/-!
# A lane as a function of its bytes

The bytes behind the offset of a lane's file are cut into the cycles of the schedule, and every
cycle emits its samples. As many cycles are whole as fit; bytes that are left over belong to a cycle
that is cut, which emits the chunks before the cut. A lane that is run over a source that never
fails, with sinks that never fail, delivers exactly what is emitted so, and its outcome tells
whether the bytes end with a cycle. Files that change while they are read are left to others.
-/

namespace SampleDemux

namespace LanePlan

/-- The bytes behind the offset of the lane's file. -/
def body (plan : LanePlan) (input : List UInt8) : List UInt8 := input.drop plan.file.offset

/-- The block that has a cycle. -/
def blockAt (plan : LanePlan) (cycle : ℕ) : Option BlockPlan :=
  plan.blocks[schedule (plan.blocks.map (·.cycles)) cycle]?

/-- Bytes of a cycle. -/
def cycleSize (plan : LanePlan) (cycle : ℕ) : ℕ := ((plan.blockAt cycle).map (·.size)).getD 0

/-- Bytes of the first so many cycles. -/
def boundary (plan : LanePlan) (cycles : ℕ) : ℕ := ((List.range cycles).map plan.cycleSize).sum

/-- How many whole cycles there are in so many bytes. -/
def wholeCycles (plan : LanePlan) (available : ℕ) : ℕ :=
  Nat.findGreatest (fun cycles => plan.boundary cycles ≤ available) available

/-- What a cycle emits, of the bytes behind the offset. -/
def cycleEmissions (plan : LanePlan) (data : List UInt8) (cycle : ℕ) : List Emission :=
  ((plan.blockAt cycle).map fun block => block.emissions (data.drop (plan.boundary cycle))).getD []

/-- What all whole cycles emit, of the bytes behind the offset. -/
def wholeEmissions (plan : LanePlan) (data : List UInt8) : List Emission :=
  (List.range (plan.wholeCycles data.length)).flatMap (plan.cycleEmissions data)

/-- The region that the bytes behind the offset end in, if they do not end with a cycle: its size,
and how many bytes of it there are. -/
def cut? (plan : LanePlan) (available : ℕ) : Option (ℕ × ℕ) :=
  let cycles := plan.wholeCycles available
  if plan.boundary cycles = available then none
  else (plan.blockAt cycles).bind fun block =>
    cutRegion block.regions (available - plan.boundary cycles)

/-- What the cycle emits that the bytes behind the offset end in, if they do not end with a
cycle. -/
def cutEmissions (plan : LanePlan) (data : List UInt8) : List Emission :=
  let cycles := plan.wholeCycles data.length
  if plan.boundary cycles = data.length then [] else plan.cycleEmissions data cycles

/-- What a lane emits, of the bytes behind the offset. -/
def emissions (plan : LanePlan) (data : List UInt8) : List Emission :=
  plan.wholeEmissions data ++ plan.cutEmissions data

/-- What a lane comes to on the bytes behind the offset: the totals of the whole cycles, or the
region that the bytes end in. -/
def outcome (plan : LanePlan) (data : List UInt8) : Except ConvertError LaneSummary :=
  match plan.cut? data.length with
  | none =>
    .ok { lane := plan.id, cycles := plan.wholeCycles data.length, bytes := data.length
          samples := (plan.wholeEmissions data).length }
  | some (size, got) =>
    .error (.source plan.id (.truncated (plan.file.offset + data.length - got) size got))

/-- The plan was built, from a lane with a block. -/
structure IsBuilt (plan : LanePlan) : Prop where
  /-- The blocks were built. -/
  blocks : ∀ block ∈ plan.blocks, block.IsBuilt
  /-- There is one. -/
  nonempty : plan.blocks ≠ []

/-- What a plan has of its declaration: the name, the last file that names the lane, the first
system, and the blocks one by one. -/
structure BuiltFrom (descriptor : Descriptor) (lane : LaneDecl) (plan : LanePlan) : Prop where
  /-- The plan has the declared identifier. -/
  id : plan.id = lane.id
  /-- The file is the last one that names the lane. -/
  file : (descriptor.filesForLane lane.id).getLast? = some plan.file
  /-- The system is the first one of the lane. -/
  system : ∃ name, lane.systems.head? = some name ∧ descriptor.system? name = some plan.system
  /-- The blocks were built with it. -/
  blocks : List.Forall₂ (fun block blockPlan =>
    BlockPlan.build descriptor plan.system block = .ok blockPlan) lane.blocks plan.blocks

/-- A plan that was built has all this of its declaration. -/
theorem builtFrom_of_build {descriptor : Descriptor} {lane : LaneDecl} {plan : LanePlan}
    (h : build descriptor lane = .ok plan) : plan.BuiltFrom descriptor lane := by
  unfold build at h
  split at h
  · cases h
  rename_i file hfile
  split at h
  · cases h
  rename_i name others hnames
  split at h
  · cases h
  rename_i system hsystem
  split at h
  · cases h
  rename_i blocks hbuilt
  cases h
  have hfirst : lane.systems.head? = some name := by rw [hnames, List.head?_cons]
  exact ⟨rfl, hfile, ⟨name, hfirst, hsystem⟩, forall₂_of_mapM_eq_ok hbuilt⟩

/-- The blocks of a plan that was built are built. -/
theorem blocks_isBuilt_of_build {descriptor : Descriptor} {lane : LaneDecl} {plan : LanePlan}
    (h : build descriptor lane = .ok plan) : ∀ block ∈ plan.blocks, block.IsBuilt := by
  have hdeclared := (builtFrom_of_build h).blocks
  exact forall_mem_of_forall₂ hdeclared fun _ _ hblock => BlockPlan.isBuilt_of_build hblock

/-- A plan that was built from a lane with a block is one. -/
theorem isBuilt_of_build {descriptor : Descriptor} {lane : LaneDecl} {plan : LanePlan}
    (h : build descriptor lane = .ok plan) (hblocks : lane.blocks ≠ []) : plan.IsBuilt := by
  refine ⟨blocks_isBuilt_of_build h, fun hempty => ?_⟩
  have hlength := (builtFrom_of_build h).blocks.length_eq
  rw [List.length_eq_zero_iff.mpr hempty] at hlength
  exact hblocks (List.length_eq_zero_iff.mp hlength)

variable {plan : LanePlan}

/-- The bytes of one more cycle. -/
theorem boundary_succ (plan : LanePlan) (cycles : ℕ) :
    plan.boundary (cycles + 1) = plan.boundary cycles + plan.cycleSize cycles := by
  simp only [boundary, List.range_succ, List.map_append, List.map_singleton,
    List.sum_append, List.sum_singleton]

/-- No limit of a built lane says zero cycles. -/
theorem IsBuilt.limits_ne (h : plan.IsBuilt) :
    ∀ limit ∈ plan.blocks.map (·.cycles), limit ≠ .count 0 := by
  intro limit hlimit
  rcases List.mem_map.mp hlimit with ⟨block, hblock, rfl⟩
  exact (h.blocks block hblock).cycles_ne

/-- There is a limit. -/
theorem IsBuilt.limits_nonempty (h : plan.IsBuilt) : plan.blocks.map (·.cycles) ≠ [] :=
  fun hempty => h.nonempty (List.map_eq_nil_iff.mp hempty)

/-- Every cycle of a built lane has a block. -/
theorem IsBuilt.exists_blockAt (h : plan.IsBuilt) (cycle : ℕ) :
    ∃ block, plan.blockAt cycle = some block ∧ block.IsBuilt ∧
      plan.cycleSize cycle = block.size := by
  have hlt := Progress.schedule_lt h.limits_nonempty h.limits_ne cycle
  rw [List.length_map] at hlt
  have hblock : plan.blockAt cycle = some _ := List.getElem?_eq_getElem hlt
  refine ⟨_, hblock, h.blocks _ (List.getElem_mem hlt), ?_⟩
  rw [cycleSize, hblock]
  rfl

/-- A cycle has a byte. -/
theorem IsBuilt.cycleSize_pos (h : plan.IsBuilt) (cycle : ℕ) : 0 < plan.cycleSize cycle := by
  rcases h.exists_blockAt cycle with ⟨block, -, hblock, hsize⟩
  rw [hsize]
  exact hblock.size_pos

/-- More cycles have more bytes. -/
theorem IsBuilt.boundary_strictMono (h : plan.IsBuilt) : StrictMono plan.boundary :=
  strictMono_nat_of_lt_succ fun cycles => by
    have hpos := h.cycleSize_pos cycles
    rw [boundary_succ]
    omega

/-- So many further cycles have at least as many bytes. -/
theorem IsBuilt.add_le_boundary (h : plan.IsBuilt) (cycles further : ℕ) :
    plan.boundary cycles + further ≤ plan.boundary (cycles + further) := by
  induction further with
  | zero => exact le_rfl
  | succ further ih =>
    have hnext := h.cycleSize_pos (cycles + further)
    rw [← Nat.add_assoc cycles, boundary_succ]
    omega

/-- The whole cycles fit. -/
theorem boundary_wholeCycles_le (plan : LanePlan) (available : ℕ) :
    plan.boundary (plan.wholeCycles available) ≤ available := by
  have hspec := @Nat.findGreatest_spec 0 (fun cycles => plan.boundary cycles ≤ available) _
    available (Nat.zero_le _) (Nat.zero_le _)
  exact hspec

/-- No more cycles than the whole ones fit. -/
theorem IsBuilt.le_wholeCycles (h : plan.IsBuilt) {cycles available : ℕ}
    (hfits : plan.boundary cycles ≤ available) : cycles ≤ plan.wholeCycles available :=
  Nat.le_findGreatest (h.boundary_strictMono.le_apply.trans hfits) hfits

/-- The cycle behind the whole ones does not fit. -/
theorem IsBuilt.lt_boundary_succ (h : plan.IsBuilt) (available : ℕ) :
    available < plan.boundary (plan.wholeCycles available + 1) := by
  by_contra hfits
  have hle := h.le_wholeCycles (Nat.le_of_not_lt hfits)
  omega

/-- Cycles that have exactly so many bytes are the whole ones. -/
theorem IsBuilt.wholeCycles_boundary (h : plan.IsBuilt) (cycles : ℕ) :
    plan.wholeCycles (plan.boundary cycles) = cycles := by
  refine le_antisymm ?_ (h.le_wholeCycles le_rfl)
  exact h.boundary_strictMono.le_iff_le.mp (plan.boundary_wholeCycles_le _)

/-- Bytes that do not end with a cycle end in a region of one. -/
theorem IsBuilt.exists_cut (h : plan.IsBuilt) {available : ℕ}
    (hcut : plan.boundary (plan.wholeCycles available) ≠ available) :
    ∃ block size got, plan.blockAt (plan.wholeCycles available) = some block ∧
      cutRegion block.regions (available - plan.boundary (plan.wholeCycles available)) =
        some (size, got) ∧ plan.cut? available = some (size, got) := by
  rcases h.exists_blockAt (plan.wholeCycles available) with ⟨block, hblock, -, hsize⟩
  have hfits := plan.boundary_wholeCycles_le available
  have hnext := h.lt_boundary_succ available
  rw [boundary_succ, hsize] at hnext
  cases hregion : cutRegion block.regions
      (available - plan.boundary (plan.wholeCycles available)) with
  | none =>
    have hall := (cutRegion_eq_none_iff _ _).mp hregion
    rw [BlockPlan.size] at hnext
    omega
  | some region =>
    rcases region with ⟨size, got⟩
    refine ⟨block, size, got, hblock, hregion, ?_⟩
    rw [cut?]
    simp only [if_neg hcut, hblock, Option.bind_some, hregion]

end LanePlan

namespace Lane

/-- The lane when a cycle of its block came out so. -/
def settle (lane : Lane) (result : Except ConvertError CycleOutcome × ByteSource) :
    Except ConvertError Step × Lane :=
  let lane := { lane with source := result.2 }
  match result.1 with
  | .error error => (.error error, lane)
  | .ok .endOfInput => (.ok .endOfInput, { lane with finished := true })
  | .ok (.completed bytes samples) => (.ok (.cycle bytes samples), lane.afterCycle bytes samples)

/-- A step runs a cycle of the block whose turn it is. -/
theorem step_eq_settle {lane : Lane} (hfinished : lane.finished = false) {block : BlockRunner}
    (hblock : lane.turn.blocks[lane.turn.blockIndex]? = some block) :
    lane.step = (block.runCycle lane.turn.id lane.turn.source).map lane.turn.settle := by
  rw [step, hfinished, if_neg Bool.false_ne_true]
  simp only [hblock]
  rfl

variable {W S : Type}

/-- A lane follows its plan: it is bound to the plan's blocks and has come as far in the
schedule. -/
structure Follows (registry : Registry W S) (plan : LanePlan) (cycle : ℕ) (lane : Lane) :
    Prop where
  /-- The lane is the plan's. -/
  id_eq : lane.id = plan.id
  /-- Its blocks are attached. -/
  blocks : List.Forall₂ (BlockRunner.Attached registry) plan.blocks lane.blocks
  /-- So many cycles of the schedule are done. -/
  progress : Progress (plan.blocks.map (·.cycles)) cycle lane.blockIndex lane.blockCycles

/-- The limits of a lane at its blocks are the plan's. -/
theorem Follows.limits_eq {registry : Registry W S} {plan : LanePlan} {cycle : ℕ} {lane : Lane}
    (h : Follows registry plan cycle lane) : lane.limits = plan.blocks.map (·.cycles) := by
  have hcycles := h.blocks.imp fun block runner hattached => hattached.cycles
  rw [Lane.limits]
  symm
  rw [← List.forall₂_eq_eq_eq, List.forall₂_map_left_iff, List.forall₂_map_right_iff]
  exact hcycles.imp fun _ _ hcycles => hcycles.symm

/-- Taking turns leads to the block that the schedule names, and changes no more than that. -/
theorem Follows.turn {registry : Registry W S} {plan : LanePlan} {cycle : ℕ} {lane : Lane}
    (h : Follows registry plan cycle lane) (hplan : plan.IsBuilt) :
    Follows registry plan cycle lane.turn ∧
      Due (plan.blocks.map (·.cycles)) lane.turn.blockIndex lane.turn.blockCycles ∧
      (∃ index cycles, lane.turn = { lane with blockIndex := index, blockCycles := cycles }) ∧
      ∃ block runner, plan.blockAt cycle = some block ∧ block.IsBuilt ∧
        plan.cycleSize cycle = block.size ∧
        lane.turn.blocks[lane.turn.blockIndex]? = some runner ∧
        BlockRunner.Attached registry block runner := by
  obtain ⟨hprogress, hdue⟩ := h.progress.turn hplan.limits_ne
  obtain ⟨block, hblock, hbuilt, hsize⟩ := hplan.exists_blockAt cycle
  have hplace := hblock
  rw [LanePlan.blockAt, hprogress.schedule_eq hdue] at hplace
  obtain ⟨runner, hrunner, hattached⟩ := exists_getElem?_of_forall₂ h.blocks hplace
  rw [Lane.turn_eq, h.limits_eq]
  exact ⟨⟨h.id_eq, h.blocks, hprogress⟩, hdue, ⟨_, _, rfl⟩, block, runner, hblock, hbuilt, hsize,
    hrunner, hattached⟩

/-- A lane stands before a cycle: it follows its plan that far, has come as far in its bytes, and
has counted what all cycles before emit. -/
structure AtCycle (registry : Registry W S) (plan : LanePlan) (data : List UInt8) (cycle : ℕ)
    (lane : Lane) : Prop extends Follows registry plan cycle lane where
  /-- The end of the input was not reached. -/
  unfinished : lane.finished = false
  /-- The bytes of the cycles are served. -/
  serves : lane.source.Serves (plan.file.offset + plan.boundary cycle)
    (data.drop (plan.boundary cycle))
  /-- They were there. -/
  fits : plan.boundary cycle ≤ data.length
  /-- Their totals are counted. -/
  summary : lane.summary =
    { lane := plan.id, cycles := cycle, bytes := plan.boundary cycle
      samples := ((List.range cycle).flatMap (plan.cycleEmissions data)).length }

/-- A lane stands at the end of its bytes: all are served, and the whole cycles are counted. -/
structure AtEnd (registry : Registry W S) (plan : LanePlan) (data : List UInt8) (lane : Lane) :
    Prop extends Follows registry plan (plan.wholeCycles data.length) lane where
  /-- No bytes are left. -/
  serves : lane.source.Serves (plan.file.offset + data.length) []
  /-- The totals are those of the whole cycles. -/
  summary : lane.summary =
    { lane := plan.id, cycles := plan.wholeCycles data.length
      bytes := plan.boundary (plan.wholeCycles data.length)
      samples := (plan.wholeEmissions data).length }

namespace AtCycle

variable {registry : Registry W S} {plan : LanePlan} {data : List UInt8} {cycle : ℕ} {lane : Lane}

/-- Taking turns leads to the block that the schedule names. -/
theorem turn (h : AtCycle registry plan data cycle lane) (hplan : plan.IsBuilt) :
    AtCycle registry plan data cycle lane.turn ∧
      Due (plan.blocks.map (·.cycles)) lane.turn.blockIndex lane.turn.blockCycles ∧
      ∃ block runner, plan.blockAt cycle = some block ∧ block.IsBuilt ∧
        plan.cycleSize cycle = block.size ∧
        lane.turn.blocks[lane.turn.blockIndex]? = some runner ∧
        BlockRunner.Attached registry block runner := by
  obtain ⟨hturn, hdue, ⟨index, cycles, hsame⟩, hblock⟩ := h.toFollows.turn hplan
  refine ⟨⟨hturn, ?_, ?_, h.fits, ?_⟩, hdue, hblock⟩
  · rw [hsame]
    exact h.unfinished
  · rw [hsame]
    exact h.serves
  · rw [hsame]
    exact h.summary

/-- A step over a whole cycle delivers what the cycle emits, and the lane stands before the next
one. -/
theorem step_full (h : AtCycle registry plan data cycle lane) (hplan : plan.IsBuilt)
    (hnext : plan.boundary (cycle + 1) ≤ data.length) :
    ∃ deliveries next,
      List.Forall₂ registry.Addresses (plan.cycleEmissions data cycle) deliveries ∧
      lane.step.Delivers deliveries
        (.ok (.cycle (plan.cycleSize cycle) deliveries.length), next) ∧
      AtCycle registry plan data (cycle + 1) next := by
  rcases h.turn hplan with ⟨hturn, hdue, block, runner, hblock, hbuilt, hsize, hrunner, hattached⟩
  have hfits := h.fits
  rw [LanePlan.boundary_succ, hsize] at hnext
  obtain ⟨deliveries, behind, hdeliveries, hrun, hbehind⟩ :=
    hattached.runCycle_full lane.turn.id hbuilt.chunks hturn.serves
      (by rw [List.length_drop]; omega)
  have hemitted : plan.cycleEmissions data cycle =
      block.emissions (data.drop (plan.boundary cycle)) := by
    rw [LanePlan.cycleEmissions, hblock]
    rfl
  refine ⟨deliveries,
    afterCycle { lane.turn with source := behind } (plan.cycleSize cycle) deliveries.length,
    by rwa [hemitted], ?_, ?_⟩
  · rw [step_eq_settle h.unfinished hrunner, hsize]
    exact hrun.map lane.turn.settle
  · have hend : plan.boundary (cycle + 1) = plan.boundary cycle + block.size := by
      rw [LanePlan.boundary_succ, hsize]
    rw [List.drop_drop, Nat.add_assoc, ← hend] at hbehind
    exact
      { unfinished := hturn.unfinished
        id_eq := hturn.id_eq
        blocks := hturn.blocks
        progress := hturn.progress.next hdue
        serves := hbehind
        fits := by rwa [hend]
        summary := by
          simp only [afterCycle, hturn.summary, hend, hsize, List.range_succ, List.flatMap_append,
            List.flatMap_singleton, List.length_append, hemitted, hdeliveries.length_eq] }

/-- A step at the end of the input finishes the lane. -/
theorem step_end (h : AtCycle registry plan data cycle lane) (hplan : plan.IsBuilt)
    (hend : plan.boundary cycle = data.length) :
    ∃ next, lane.step.Delivers [] (.ok .endOfInput, next) ∧ next.finished = true ∧
      AtEnd registry plan data next := by
  obtain ⟨hturn, -, block, runner, -, hbuilt, -, hrunner, hattached⟩ := h.turn hplan
  have hserves := hturn.serves
  rw [hend, List.drop_length] at hserves
  obtain ⟨behind, hrun, hbehind⟩ :=
    hattached.runCycle_end lane.turn.id hbuilt.chunks hbuilt.size_pos hserves
  have hwhole : plan.wholeCycles data.length = cycle := by
    rw [← hend, hplan.wholeCycles_boundary]
  refine ⟨{ lane.turn with source := behind, finished := true }, ?_, rfl, ?_⟩
  · rw [step_eq_settle h.unfinished hrunner, hrun]
    exact .done _
  · exact
      { id_eq := hturn.id_eq
        blocks := hturn.blocks
        progress := hwhole ▸ hturn.progress
        serves := hbehind
        summary := by rw [LanePlan.wholeEmissions, hwhole]; exact hturn.summary }

/-- A step over a cycle that is cut delivers what the chunks before the cut emit and fails. The lane
stands at the end of its bytes then, although it is not finished. -/
theorem step_cut (h : AtCycle registry plan data (plan.wholeCycles data.length) lane)
    (hplan : plan.IsBuilt) (hrest : plan.boundary (plan.wholeCycles data.length) ≠ data.length) :
    ∃ size got deliveries next, plan.cut? data.length = some (size, got) ∧
      List.Forall₂ registry.Addresses (plan.cutEmissions data) deliveries ∧
      lane.step.Delivers deliveries
        (.error (.source plan.id
          (.truncated (plan.file.offset + data.length - got) size got)), next) ∧
      next.finished = false ∧ AtEnd registry plan data next := by
  obtain ⟨block, size, got, hblock, hregion, hcut⟩ := hplan.exists_cut hrest
  obtain ⟨hturn, -, other, runner, hother, hbuilt, -, hrunner, hattached⟩ := h.turn hplan
  obtain rfl : block = other := Option.some_inj.mp (hblock.symm.trans hother)
  have hshort : plan.boundary (plan.wholeCycles data.length) < data.length :=
    lt_of_le_of_ne h.fits hrest
  have hall : plan.file.offset + plan.boundary (plan.wholeCycles data.length) +
      (data.drop (plan.boundary (plan.wholeCycles data.length))).length =
        plan.file.offset + data.length := by
    rw [List.length_drop]
    omega
  have hdata : data.drop (plan.boundary (plan.wholeCycles data.length)) ≠ [] := by
    intro hempty
    rw [List.drop_eq_nil_iff] at hempty
    omega
  rw [← List.length_drop] at hregion
  obtain ⟨deliveries, behind, hdeliveries, hrun, hbehind⟩ :=
    hattached.runCycle_cut lane.turn.id hbuilt.chunks hturn.serves hdata hregion
  have hemitted : plan.cutEmissions data =
      block.emissions (data.drop (plan.boundary (plan.wholeCycles data.length))) := by
    rw [LanePlan.cutEmissions, if_neg hrest, LanePlan.cycleEmissions, hblock]
    rfl
  rw [hall, hturn.id_eq] at hrun
  rw [hall] at hbehind
  refine ⟨size, got, deliveries, { lane.turn with source := behind }, hcut, by rwa [hemitted], ?_,
    hturn.unfinished, ⟨hturn.id_eq, hturn.blocks, hturn.progress⟩, hbehind, hturn.summary⟩
  rw [step_eq_settle h.unfinished hrunner, hturn.id_eq]
  exact hrun.map lane.turn.settle

/-- Driving a lane from a cycle on delivers what the further cycles emit and comes to what the bytes
say. The lane stands at their end then, and is finished if they end with a cycle. -/
theorem driveSteps_delivers (h : AtCycle registry plan data cycle lane) (hplan : plan.IsBuilt)
    {further : ℕ} (hfurther : cycle + further = plan.wholeCycles data.length) (spare : ℕ)
    (seen : List Sight) :
    ∃ deliveries drive,
      List.Forall₂ registry.Addresses
        ((List.range' cycle further).flatMap (plan.cycleEmissions data) ++ plan.cutEmissions data)
        deliveries ∧
      (driveSteps seen (further + spare + 1) lane).Delivers deliveries drive ∧
      drive.outcome = plan.outcome data ∧ AtEnd registry plan data drive.lane ∧
      drive.lane.finished = (plan.cut? data.length).isNone := by
  induction further generalizing cycle lane seen with
  | zero =>
    rw [Nat.add_zero] at hfurther
    subst hfurther
    rw [List.range'_zero, List.flatMap_nil, List.nil_append, Nat.zero_add, driveSteps,
      LanePlan.outcome]
    by_cases hend : plan.boundary (plan.wholeCycles data.length) = data.length
    · obtain ⟨next, hstep, hfinished, hatEnd⟩ := h.step_end hplan hend
      rw [LanePlan.cutEmissions, if_pos hend, LanePlan.cut?]
      refine ⟨[], _, .nil, hstep.bind (.done _), ?_, hatEnd, ?_⟩
      · rw [if_pos hend, hatEnd.summary, hend]
      · rw [if_pos hend]
        exact hfinished
    · obtain ⟨size, got, deliveries, next, hcut, hdeliveries, hstep, hfinished, hatEnd⟩ :=
        h.step_cut hplan hend
      rw [hcut]
      refine ⟨deliveries,
        ⟨.error (.source plan.id (.truncated (plan.file.offset + data.length - got) size got)),
          seen.reverse, next⟩, hdeliveries, ?_, rfl, hatEnd, hfinished⟩
      rw [← List.append_nil deliveries]
      exact hstep.bind (.done _)
  | succ further ih =>
    have hnext : plan.boundary (cycle + 1) ≤ data.length :=
      (hplan.boundary_strictMono.monotone (by omega)).trans
        (plan.boundary_wholeCycles_le data.length)
    rcases h.step_full hplan hnext with ⟨first, next, hfirst, hstep, hafter⟩
    obtain ⟨rest, drive, hrest, hdrive, hends⟩ :=
      ih hafter (by omega) (⟨next.position, next.finished⟩ :: seen)
    refine ⟨first ++ rest, drive, ?_, ?_, hends⟩
    · rw [List.range'_succ, List.flatMap_cons, List.append_assoc]
      exact List.rel_append hfirst hrest
    · rw [show further + 1 + spare + 1 = further + spare + 1 + 1 by omega, driveSteps]
      exact hstep.bind hdrive

/-- A lane before a cycle delivers what the further cycles emit, and comes to the end of its
bytes. -/
theorem drive_delivers (h : AtCycle registry plan data cycle lane) (hplan : plan.IsBuilt) :
    ∃ deliveries drive,
      List.Forall₂ registry.Addresses
        ((List.range' cycle (plan.wholeCycles data.length - cycle)).flatMap
          (plan.cycleEmissions data) ++ plan.cutEmissions data)
        deliveries ∧
      lane.drive.Delivers deliveries drive ∧
      drive.outcome = plan.outcome data ∧ AtEnd registry plan data drive.lane ∧
      drive.lane.finished = (plan.cut? data.length).isNone := by
  have hcycle : cycle ≤ plan.wholeCycles data.length := hplan.le_wholeCycles h.fits
  have hbound : lane.source.bound = data.length - plan.boundary cycle := by
    rw [h.serves.bound_eq, List.length_drop]
  -- Every further cycle has a byte, so there are at least as many bytes left.
  have hbytes : plan.wholeCycles data.length - cycle ≤ data.length - plan.boundary cycle := by
    have hgrow := hplan.add_le_boundary cycle (plan.wholeCycles data.length - cycle)
    have hfits := plan.boundary_wholeCycles_le data.length
    rw [Nat.add_sub_cancel' hcycle] at hgrow
    omega
  obtain ⟨spare, hspare⟩ := Nat.exists_eq_add_of_le hbytes
  rw [Lane.drive, hbound, hspare]
  exact h.driveSteps_delivers hplan (Nat.add_sub_cancel' hcycle) spare []

/-- A lane before its first cycle delivers what its bytes emit. -/
theorem run_delivers (h : AtCycle registry plan data 0 lane) (hplan : plan.IsBuilt) :
    ∃ deliveries finished,
      List.Forall₂ registry.Addresses (plan.emissions data) deliveries ∧
      lane.run.Delivers deliveries (plan.outcome data, finished) := by
  obtain ⟨deliveries, drive, hdeliveries, hdrive, houtcome, -⟩ := h.drive_delivers hplan
  rw [Nat.sub_zero, ← List.range_eq_range'] at hdeliveries
  refine ⟨deliveries, drive.lane, hdeliveries, ?_⟩
  rw [Lane.run, ← houtcome]
  exact hdrive.map fun drive => (drive.outcome, drive.lane)

end AtCycle

variable {kind : SinkKind W S} {registry : Registry W S} {plan : LanePlan} {reader : Reader}

/-- A lane starts behind its file's offset if the input is so long. -/
theorem start_atCycle (hkind : kind.NeverFails) (hregistry : registry.Sound)
    (hplan : plan.IsBuilt) (hreader : reader.FaultFree)
    (hoffset : plan.file.offset ≤ reader.remaining.length) :
    ∃ started attached, start kind plan (.ofReader reader) registry = (.ok started, attached) ∧
      attached.Sound ∧
      AtCycle attached plan (plan.body reader.remaining) 0 started := by
  have hserves := ByteSource.serves_ofReader hreader
  rcases hserves.read_full hoffset with ⟨source, hread, hsource⟩
  obtain ⟨blocks, attached, hattach, hsound, -, hblocks⟩ :=
    attachBlocks_attaches hkind plan.blocks registry hregistry
  refine ⟨{ id := plan.id, blocks, source, summary := { lane := plan.id } }, attached, ?_, hsound,
    ?_⟩
  · simp only [start, ByteSource.fetchSkip, ByteSource.fetch_of_file_eq_none hserves.file,
      Process.run, skipOffset, ByteSource.skip, hread, hattach]
  · rw [Nat.zero_add] at hsource
    exact
      { unfinished := rfl
        id_eq := rfl
        blocks := hblocks
        progress := .start hplan.limits_nonempty
        serves := hsource
        fits := Nat.zero_le _
        summary := rfl }

end Lane

namespace LanePlan

variable {plan : LanePlan}

/-- On bytes that end with a cycle a lane comes to the totals of the cycles. -/
theorem IsBuilt.outcome_whole (h : plan.IsBuilt) {data : List UInt8} {cycles : ℕ}
    (hend : plan.boundary cycles = data.length) :
    plan.emissions data = (List.range cycles).flatMap (plan.cycleEmissions data) ∧
      plan.outcome data =
        .ok { lane := plan.id, cycles, bytes := data.length
              samples := (plan.emissions data).length } := by
  have hwhole : plan.wholeCycles data.length = cycles := by
    rw [← hend, h.wholeCycles_boundary]
  have hemissions : plan.emissions data = plan.wholeEmissions data := by
    rw [emissions, cutEmissions, hwhole, if_pos hend, List.append_nil]
  rw [hemissions, outcome, cut?, hwhole, if_pos hend, wholeEmissions, hwhole]
  exact ⟨rfl, rfl⟩

/-- On bytes that end inside a cycle a lane comes to the region that they end in. -/
theorem IsBuilt.outcome_cut (h : plan.IsBuilt) {data : List UInt8}
    (hend : ∀ cycles, plan.boundary cycles ≠ data.length) :
    ∃ block size got, plan.blockAt (plan.wholeCycles data.length) = some block ∧
      cutRegion block.regions
        (data.length - plan.boundary (plan.wholeCycles data.length)) = some (size, got) ∧
      plan.emissions data =
        (List.range (plan.wholeCycles data.length)).flatMap (plan.cycleEmissions data) ++
          plan.cycleEmissions data (plan.wholeCycles data.length) ∧
      plan.outcome data =
        .error (.source plan.id
          (.truncated (plan.file.offset + data.length - got) size got)) := by
  have hcut := hend (plan.wholeCycles data.length)
  rcases h.exists_cut hcut with ⟨block, size, got, hblock, hregion, hfound⟩
  refine ⟨block, size, got, hblock, hregion, ?_, ?_⟩
  · rw [emissions, cutEmissions, if_neg hcut]
    rfl
  · rw [outcome, hfound]

/-- Bytes end inside a cycle. The reader had so many bytes. -/
structure EndsInside (plan : LanePlan) (data : List UInt8) (bytes cycles : ℕ) (block : BlockPlan)
    (size got : ℕ) : Prop where
  /-- The cycle is one of a block. -/
  block_eq : plan.blockAt cycles = some block
  /-- It begins before the bytes end. -/
  begins : plan.boundary cycles < data.length
  /-- It ends behind them. -/
  ends : data.length < plan.boundary (cycles + 1)
  /-- They end in one of its regions. -/
  region : cutRegion block.regions (data.length - plan.boundary cycles) = some (size, got)
  /-- The samples are those of all whole cycles and of the chunks before the cut. -/
  emissions_eq : plan.emissions data = (List.range cycles).flatMap (plan.cycleEmissions data) ++
    block.emissions (data.drop (plan.boundary cycles))
  /-- The failure names the region. -/
  outcome_eq : plan.outcome data =
    .error (.source plan.id (.truncated (bytes - got) size got))

/-- A started lane whose run gives the sinks of the streams exactly what the bytes of the reader
behind the offset emit, in order. -/
structure RunDelivers {W S : Type} (plan : LanePlan) (kind : SinkKind W S) (reader : Reader)
    (attached : Registry W S) (started : Lane) (deliveries : List Delivery) (finished : Lane) :
    Prop where
  /-- The streams have their sinks. -/
  sound : attached.Sound
  /-- The samples are those that the bytes emit. -/
  addresses : List.Forall₂ attached.Addresses (plan.emissions (plan.body reader.remaining))
    deliveries
  /-- The run delivers them, in order, and comes to the outcome of the bytes. -/
  delivers : started.run.Delivers deliveries (plan.outcome (plan.body reader.remaining), finished)
  /-- So it gives them to the sinks. -/
  run_eq : started.run.run kind attached =
    ((plan.outcome (plan.body reader.remaining), finished), attached.consumeAll kind deliveries)
  /-- If the bytes end with a cycle, the run succeeds with the number of cycles, their bytes and
  their samples. -/
  whole : ∀ cycles, plan.boundary cycles = (plan.body reader.remaining).length →
    plan.emissions (plan.body reader.remaining) =
      (List.range cycles).flatMap (plan.cycleEmissions (plan.body reader.remaining)) ∧
    plan.outcome (plan.body reader.remaining) =
      .ok { lane := plan.id, cycles, bytes := reader.remaining.length - plan.file.offset
            samples := deliveries.length }
  /-- If they do not, it fails with the region that they end in. -/
  cut : (∀ cycles, plan.boundary cycles ≠ (plan.body reader.remaining).length) →
    ∃ cycles block size got,
      plan.EndsInside (plan.body reader.remaining) reader.remaining.length cycles block size got

/-- A built lane with a block, started over a reader that never fails and has the bytes of the
file's offset, with sinks that never fail: it starts, and running it gives the sinks of the streams
exactly what the bytes behind the offset emit. -/
theorem run_delivers_emissions {W S : Type} {kind : SinkKind W S} {registry : Registry W S}
    {descriptor : Descriptor} {lane : LaneDecl} {reader : Reader}
    (hplan : build descriptor lane = .ok plan) (hblocks : lane.blocks ≠ [])
    (hreader : reader.FaultFree) (hoffset : plan.file.offset ≤ reader.remaining.length)
    (hkind : kind.NeverFails) (hregistry : registry.Sound) :
    ∃ started attached deliveries finished,
      Lane.start kind plan (.ofReader reader) registry = (.ok started, attached) ∧
      plan.RunDelivers kind reader attached started deliveries finished := by
  have hbuilt := isBuilt_of_build hplan hblocks
  obtain ⟨started, attached, hstart, hsound, hbegin⟩ :=
    Lane.start_atCycle hkind hregistry hbuilt hreader hoffset
  rcases hbegin.run_delivers hbuilt with ⟨deliveries, finished, hdeliveries, hrun⟩
  have hsinks : ∀ delivery ∈ deliveries, delivery.sink < attached.made.length :=
    forall_mem_of_forall₂ hdeliveries fun _ _ haddresses => haddresses.sink_lt hsound
  have hlength : (plan.body reader.remaining).length =
      reader.remaining.length - plan.file.offset := List.length_drop
  refine ⟨started, attached, deliveries, finished, hstart, {
    sound := hsound
    addresses := hdeliveries
    delivers := hrun
    run_eq := hrun.run hkind hsinks
    whole := fun cycles hend => ?_
    cut := fun hend => ?_ }⟩
  · rw [← hdeliveries.length_eq, ← hlength]
    exact hbuilt.outcome_whole hend
  · rcases hbuilt.outcome_cut hend with ⟨block, size, got, hblock, hregion, hemissions, houtcome⟩
    rw [hlength, Nat.add_sub_cancel' hoffset] at houtcome
    refine ⟨_, block, size, got, {
      block_eq := hblock
      begins := lt_of_le_of_ne (plan.boundary_wholeCycles_le _) (hend _)
      ends := hbuilt.lt_boundary_succ _
      region := hregion
      emissions_eq := ?_
      outcome_eq := houtcome }⟩
    rw [hemissions, cycleEmissions, hblock]
    rfl

end LanePlan

/-- A lane with a block that has one cycle and a block without a limit. -/
def packedLane : LaneDecl where
  id := "P"
  systems := ["S"]
  blocks := [
    { cycles := 1, sizeHeader := 1, sizeFooter := 1, chunks := [packedChunk] },
    { chunks := [packedChunk] }]

/-- A recording of that lane, behind two other bytes of a file. -/
def packedRecording : Descriptor where
  systems := [{ id := "S" }]
  bands := [{ id := "L" }]
  files := [{ lane := "P", offset := 2 }]

/-- A reader that is interrupted once and ends inside a chunk. -/
def packedReader : Reader :=
  ⟨[.bytes (List.replicate 7 0x5a), .interrupted, .bytes (List.replicate 12 0xc3)]⟩

/-- The recording of the packed lane is read up to the chunk that is cut. -/
theorem LanePlan.run_delivers_emissions_of_packedLane :
    ∃ plan started attached deliveries finished,
      build packedRecording packedLane = .ok plan ∧
      Lane.start MemorySink.kind plan (.ofReader packedReader) { world := () } =
        (.ok started, attached) ∧
      List.Forall₂ attached.Addresses (plan.emissions (plan.body packedReader.remaining))
        deliveries ∧
      started.run.run MemorySink.kind attached =
        ((.error (.source "P" (.truncated 16 6 3)), finished),
          attached.consumeAll MemorySink.kind deliveries) := by
  obtain ⟨plan, hplan, hoffset, houtcome⟩ : ∃ plan, build packedRecording packedLane = .ok plan ∧
      plan.file.offset = 2 ∧
      plan.outcome (plan.body packedReader.remaining) =
        .error (.source "P" (.truncated 16 6 3)) := ⟨_, rfl, rfl, rfl⟩
  have hreader : packedReader.FaultFree := by
    intro event hevent reason
    simp only [packedReader, List.mem_cons, List.not_mem_nil, or_false] at hevent
    rcases hevent with rfl | rfl | rfl <;> exact nofun
  have hlength : plan.file.offset ≤ packedReader.remaining.length := by
    rw [hoffset]
    decide
  obtain ⟨started, attached, deliveries, finished, hstart, hdelivers⟩ :=
    run_delivers_emissions hplan (by exact List.cons_ne_nil _ _) hreader hlength
      MemorySink.kind_neverFails (Registry.sound_of_world ())
  have hrun := hdelivers.run_eq
  rw [houtcome] at hrun
  exact ⟨plan, started, attached, deliveries, finished, hplan, hstart, hdelivers.addresses, hrun⟩

end SampleDemux
