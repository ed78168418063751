import SampleDemux.Proofs.CycleOutcome

/-!
# The accounts of a lane over any history

A lane may be stepped as often as one likes, also behind a step that failed: because its source
failed or ended inside a cycle, or because a sink did not take a sample. Whatever the steps came to,
the completed cycles are those of the schedule from its first one on, and the totals are theirs. A
step that fails leaves the schedule where it is, so that the same block is tried again, and where
its source stands is all that is lost. Until a step fails, the source stands behind the bytes of the
completed cycles, and all their samples were taken.
-/

namespace SampleDemux

open Process

/-- Only samples that were taken were delivered, and so many of them. -/
def AllTaken (exchanges : List Exchange) (count : ℕ) : Prop :=
  ∃ deliveries : List Delivery, exchanges = deliveries.map .taken ∧ deliveries.length = count

namespace AllTaken

/-- No samples were delivered. -/
theorem nil : AllTaken [] 0 := ⟨[], rfl, rfl⟩

/-- No samples were taken only if there are no exchanges. -/
theorem eq_nil {exchanges : List Exchange} (h : AllTaken exchanges 0) : exchanges = [] := by
  obtain ⟨deliveries, rfl, hlength⟩ := h
  rw [List.length_eq_zero_iff.mp hlength, List.map_nil]

/-- Samples that were taken after others that were. -/
theorem append {first rest : List Exchange} {count others : ℕ} (h : AllTaken first count)
    (hrest : AllTaken rest others) : AllTaken (first ++ rest) (count + others) := by
  obtain ⟨deliveries, rfl, rfl⟩ := h
  obtain ⟨further, rfl, rfl⟩ := hrest
  exact ⟨deliveries ++ further, List.map_append.symm, List.length_append⟩

end AllTaken

section Course

variable {W S : Type} {registry : Registry W S} {shows : Showing} {lane : String}
  {source behind : ByteSource} {exchanges : List Exchange}

/-- A chunk that counts samples has taken its bytes, and its samples were taken. A chunk that finds
the end of the input has done nothing. -/
theorem ChunkRunner.Attached.accounts_of_execute {plan : ChunkPlan} {runner : ChunkRunner}
    (h : ChunkRunner.Attached registry plan runner) (hbuilt : plan.IsBuilt)
    (hsound : registry.Sound) {outcome : Except ConvertError (Option ℕ)}
    (hexecute : (runner.execute lane source).Exchanges shows exchanges (outcome, behind)) :
    (∀ count, outcome = .ok (some count) → count = plan.sampleCount ∧
        AllTaken exchanges plan.sampleCount ∧
        behind.position = source.position + plan.sizeBytes) ∧
      (outcome = .ok none → exchanges = [] ∧ behind.position = source.position) := by
  obtain ⟨⟨data, answer, later⟩, hrequest, rfl, hexecution⟩ :=
    (h.exchanges_execute lane source hbuilt hsound).mp hexecute
  dsimp only at hexecution
  cases hexecution with
  | failed error => exact ⟨nofun, nofun⟩
  | ended => exact ⟨nofun, fun _ => ⟨rfl, (ByteSource.request_of_ok hrequest rfl).2⟩⟩
  | cut got => exact ⟨nofun, nofun⟩
  | @delivered deliveries hdeliveries =>
    have hposition := (ByteSource.request_of_ok hrequest rfl).2
    have hlength := hdeliveries.length_eq
    rw [hbuilt.length_emissions] at hlength
    refine ⟨fun count hcount => ?_, nofun⟩
    cases hcount
    exact ⟨rfl, ⟨deliveries, rfl, hlength.symm⟩, hposition⟩
  | stopped => exact ⟨nofun, nofun⟩

namespace BlockRunner

/-- A region that is passed over takes its bytes; one that is missing stands where the cycle
begins. -/
theorem accounts_of_skipRegion {size start : ℕ} {outcome : Except ConvertError Bool}
    (h : (skipRegion lane size start source).Exchanges shows exchanges (outcome, behind)) :
    exchanges = [] ∧ (outcome = .ok true → behind.position = source.position + size) ∧
      (outcome = .ok false → behind.position = source.position ∧ source.position = start) := by
  obtain ⟨later, hfetch, hskip⟩ := exchanges_map.mp h
  obtain ⟨hexchanges, hposition⟩ := ByteSource.exchanges_fetch hfetch
  refine ⟨hexchanges, fun htrue => ?_, fun hfalse => ?_⟩
  · have hthere := source_of_skipNext lane start later size
    rw [hskip] at hthere
    dsimp only at hthere
    have hserved := (ByteSource.read_of_ok (hthere.2 htrue)).2
    rw [hposition] at hserved
    rw [hthere.1]
    exact hserved
  · unfold skipNext ByteSource.skip at hskip
    dsimp only at hskip
    split at hskip
    · cases hskip
      cases hfalse
    · cases hskip
      cases hfalse
    · rename_i hempty
      have hserved := (ByteSource.read_of_ok hempty).2
      rw [hposition] at hserved
      split at hskip
      · rename_i hstart
        cases hskip
        exact ⟨hserved, hserved.symm.trans hstart⟩
      · cases hskip
        cases hfalse
    · cases hskip
      cases hfalse

/-- Chunks that are read take their bytes, and their samples are taken. Chunks that find the end of
the input where the cycle begins have done nothing. -/
theorem accounts_of_runChunks {plans : List ChunkPlan} {runners : List ChunkRunner}
    (h : List.Forall₂ (ChunkRunner.Attached registry) plans runners)
    (hbuilt : ∀ plan ∈ plans, plan.IsBuilt) (hsound : registry.Sound) {start samples : ℕ}
    (hstart : start ≤ source.position) {outcome : Except ConvertError (Option ℕ)}
    (hrun : (runChunks lane start samples runners source).Exchanges shows exchanges
      (outcome, behind)) :
    (∀ count, outcome = .ok (some count) →
        count = samples + (plans.map (·.sampleCount)).sum ∧
        AllTaken exchanges (plans.map (·.sampleCount)).sum ∧
        behind.position = source.position + (plans.map (·.sizeBytes)).sum) ∧
      (outcome = .ok none → plans ≠ [] ∧ exchanges = [] ∧ behind.position = source.position ∧
        source.position = start) := by
  induction h generalizing source exchanges samples with
  | nil =>
    cases hrun
    refine ⟨fun count hcount => ?_, nofun⟩
    cases hcount
    exact ⟨rfl, .nil, rfl⟩
  | @cons plan runner plans runners hrunner _ ih =>
    have hplan := hbuilt plan List.mem_cons_self
    have hothers := fun other hother => hbuilt other (List.mem_cons_of_mem plan hother)
    obtain ⟨first, rest, ⟨answer, later⟩, hexecute, hnext, rfl⟩ := exchanges_bind.mp hrun
    obtain ⟨hcounted, hnone⟩ := hrunner.accounts_of_execute hplan hsound hexecute
    simp only [List.map_cons, List.sum_cons]
    match answer with
    | .error error =>
      cases hnext
      exact ⟨nofun, nofun⟩
    | .ok none =>
      obtain ⟨rfl, hposition⟩ := hnone rfl
      dsimp only at hnext
      split at hnext
      · rename_i hstarted
        cases hnext
        exact ⟨nofun, fun _ => ⟨List.cons_ne_nil _ _, rfl, hposition,
          hposition.symm.trans hstarted⟩⟩
      · cases hnext
        exact ⟨nofun, nofun⟩
    | .ok (some count) =>
      -- Behind a chunk the position is no more where the cycle begins.
      obtain ⟨rfl, htaken, hposition⟩ := hcounted count rfl
      have hpos := hplan.sizeBytes_pos
      obtain ⟨hsome, hend⟩ := ih hothers (by omega) hnext
      refine ⟨fun count hcount => ?_, fun hmissing => ?_⟩
      · obtain ⟨hsamples, hrest, hbehind⟩ := hsome count hcount
        exact ⟨by omega, htaken.append hrest, by omega⟩
      · obtain ⟨-, -, -, hbegun⟩ := hend hmissing
        omega

variable {plan : BlockPlan} {runner : BlockRunner}

/-- A cycle that is completed has the bytes and the samples of its block, and all of them were
taken. A cycle that finds the end of the input has done nothing. -/
theorem Attached.accounts_of_runCycle (h : BlockRunner.Attached registry plan runner)
    (hbuilt : ∀ chunk ∈ plan.chunks, chunk.IsBuilt) (hsound : registry.Sound)
    {outcome : Except ConvertError CycleOutcome}
    (hrun : (runner.runCycle lane source).Exchanges shows exchanges (outcome, behind)) :
    (∀ bytes samples, outcome = .ok (.completed bytes samples) →
        bytes = plan.size ∧ samples = plan.sampleCount ∧ AllTaken exchanges plan.sampleCount ∧
        behind.position = source.position + plan.size) ∧
      (outcome = .ok .endOfInput → exchanges = [] ∧ behind.position = source.position) := by
  obtain ⟨first, rest, ⟨header, afterHeader⟩, hheader, hchunks, rfl⟩ := exchanges_bind.mp hrun
  obtain ⟨rfl, hpassed, hmissing⟩ := accounts_of_skipRegion hheader
  rw [List.nil_append]
  match header with
  | .error error =>
    cases hchunks
    exact ⟨nofun, nofun⟩
  | .ok false =>
    cases hchunks
    exact ⟨nofun, fun _ => ⟨rfl, (hmissing rfl).1⟩⟩
  | .ok true =>
    have hafter := hpassed rfl
    obtain ⟨middle, last, ⟨chunks, afterChunks⟩, hread, hfooter, rfl⟩ :=
      exchanges_bind.mp hchunks
    obtain ⟨hcounted, hnone⟩ :=
      accounts_of_runChunks h.chunks hbuilt hsound (by omega) hread
    match chunks with
    | .error error =>
      cases hfooter
      exact ⟨nofun, nofun⟩
    | .ok none =>
      obtain ⟨-, rfl, hposition, hbegun⟩ := hnone rfl
      cases hfooter
      exact ⟨nofun, fun _ => ⟨rfl, hposition.trans hbegun⟩⟩
    | .ok (some count) =>
      obtain ⟨hsamples, htaken, hposition⟩ := hcounted count rfl
      obtain ⟨⟨footer, afterFooter⟩, hskip, hresult⟩ := exchanges_map.mp hfooter
      obtain ⟨rfl, hpassedThen, hmissingThen⟩ := accounts_of_skipRegion hskip
      have hsize := plan.size_eq
      rw [BlockPlan.footerStart, ← h.sizeHeader, ← h.sizeFooter] at hsize
      rw [List.append_nil]
      cases footer with
      | error error =>
        cases hresult
        exact ⟨nofun, nofun⟩
      | ok passed =>
        cases passed with
        | false =>
          -- The cycle has not begun behind its chunks, so there are none.
          obtain ⟨hfooterAt, hbegun⟩ := hmissingThen rfl
          have hnochunks : plan.chunks = [] := by
            cases hplans : plan.chunks with
            | nil => rfl
            | cons chunk chunks =>
              have hpos := (hbuilt chunk (hplans ▸ List.mem_cons_self)).sizeBytes_pos
              rw [hplans, List.map_cons, List.sum_cons] at hposition
              omega
          rw [hnochunks] at htaken
          obtain rfl := htaken.eq_nil
          cases hresult
          exact ⟨nofun, fun _ => ⟨rfl, hfooterAt.trans hbegun⟩⟩
        | true =>
          have hfooterAt := hpassedThen rfl
          cases hresult
          refine ⟨fun bytes samples hcompleted => ?_, fun hend => ?_⟩
          · cases hcompleted
            refine ⟨by omega, ?_, htaken, by omega⟩
            rw [hsamples, Nat.zero_add, BlockPlan.sampleCount]
          · cases hend

end BlockRunner

end Course

namespace LanePlan

/-- Samples of a cycle. -/
def cycleSamples (plan : LanePlan) (cycle : ℕ) : ℕ :=
  ((plan.blockAt cycle).map (·.sampleCount)).getD 0

/-- Bytes and samples of the first so many cycles of the schedule. -/
def cycleTotals (plan : LanePlan) (cycles : ℕ) : List (ℕ × ℕ) :=
  (List.range cycles).map fun cycle => (plan.cycleSize cycle, plan.cycleSamples cycle)

end LanePlan

/-- The totals of cycles with given bytes and samples. -/
def LaneSummary.ofCycles (lane : String) (cycles : List (ℕ × ℕ)) : LaneSummary where
  lane := lane
  cycles := cycles.length
  bytes := (cycles.map (·.1)).sum
  samples := (cycles.map (·.2)).sum

namespace Lane

/-- A lane after steps, with what they came to and the exchanges that they made. -/
inductive History (shows : Showing) (started : Lane) :
    List (Except ConvertError Step) → List Exchange → Lane → Prop
  /-- No step was made. -/
  | start : History shows started [] [] started
  /-- A step was made, whatever the ones before came to. -/
  | step {outcomes : List (Except ConvertError Step)} {exchanges further : List Exchange}
      {lane next : Lane} {outcome : Except ConvertError Step}
      (h : History shows started outcomes exchanges lane)
      (hstep : lane.step.Exchanges shows further (outcome, next)) :
      History shows started (outcomes ++ [outcome]) (exchanges ++ further) next

/-- Bytes and samples of a step that completed a cycle. -/
def cycleOf? : Except ConvertError Step → Option (ℕ × ℕ)
  | .ok (.cycle bytes samples) => some (bytes, samples)
  | _ => none

/-- Bytes and samples of the completed cycles among what steps came to. -/
def completed (outcomes : List (Except ConvertError Step)) : List (ℕ × ℕ) :=
  outcomes.filterMap cycleOf?

/-- One more step adds its cycle, if it completed one. -/
theorem completed_concat (outcomes : List (Except ConvertError Step))
    (outcome : Except ConvertError Step) :
    completed (outcomes ++ [outcome]) = completed outcomes ++ (cycleOf? outcome).toList := by
  cases hcycle : cycleOf? outcome <;> simp [completed, hcycle]

variable {W S : Type}

/-- The accounts of a lane that was started with a plan, after steps that came to some outcomes by
some exchanges. -/
structure Accounts (registry : Registry W S) (plan : LanePlan) (origin : ℕ)
    (outcomes : List (Except ConvertError Step)) (exchanges : List Exchange) (lane : Lane) :
    Prop where
  /-- The lane is the plan's. -/
  id_eq : lane.id = plan.id
  /-- Its blocks are attached. -/
  blocks : List.Forall₂ (BlockRunner.Attached registry) plan.blocks lane.blocks
  /-- The lane has come as far in the schedule as there are completed cycles. -/
  progress : plan.blocks ≠ [] → Progress (plan.blocks.map (·.cycles))
    (completed outcomes).length lane.blockIndex lane.blockCycles
  /-- The completed cycles are the first ones of the schedule. -/
  cycles : completed outcomes =
    plan.cycleTotals (completed outcomes).length
  /-- They are counted. -/
  summary : lane.summary = .ofCycles plan.id (completed outcomes)
  /-- The lane is finished once a step came to the end of the input. -/
  finished : lane.finished = true ↔ .ok .endOfInput ∈ outcomes
  /-- If no step failed, the bytes and the samples are all accounted for. -/
  unfailed : (∀ outcome ∈ outcomes, ¬Fails outcome) →
    lane.position = origin + lane.summary.bytes ∧ AllTaken exchanges lane.summary.samples

/-- A lane has come no further than another one: it has the same totals, and it is the turn of the
same block. -/
structure KeepsTurn (lane next : Lane) : Prop where
  /-- The totals are the same. -/
  summary : next.summary = lane.summary
  /-- Both are finished, or none of them is. -/
  finished : next.finished = lane.finished
  /-- The blocks are the same. -/
  blocks : next.blocks = lane.blocks
  /-- It is the turn of the same block. -/
  blockIndex : next.turn.blockIndex = lane.turn.blockIndex
  /-- The block has completed as many cycles in a row. -/
  blockCycles : next.turn.blockCycles = lane.turn.blockCycles

namespace Accounts

variable {registry : Registry W S} {plan : LanePlan} {origin : ℕ} {shows : Showing}
  {outcomes : List (Except ConvertError Step)} {exchanges further : List Exchange}
  {lane next : Lane} {outcome : Except ConvertError Step}

/-- A lane with blocks follows its plan. -/
theorem follows (h : Accounts registry plan origin outcomes exchanges lane)
    (hblocks : plan.blocks ≠ []) :
    Follows registry plan (completed outcomes).length lane :=
  ⟨h.id_eq, h.blocks, h.progress hblocks⟩

/-- The next step of an unfinished lane runs the block of the schedule, which has a cycle left. -/
theorem exists_block (h : Accounts registry plan origin outcomes exchanges lane)
    (hbuilt : ∀ block ∈ plan.blocks, block.IsBuilt) (hblocks : plan.blocks ≠ [])
    (hunfinished : lane.finished = false) :
    ∃ block runner, plan.blockAt (completed outcomes).length = some block ∧
      lane.blocks[lane.turn.blockIndex]? = some runner ∧
      block.IsBuilt ∧ BlockRunner.Attached registry block runner ∧
      Progress (plan.blocks.map (·.cycles)) (completed outcomes).length
        lane.turn.blockIndex lane.turn.blockCycles ∧
      Due (plan.blocks.map (·.cycles)) lane.turn.blockIndex lane.turn.blockCycles ∧
      lane.step = (runner.runCycle lane.id lane.source).map lane.turn.settle := by
  obtain ⟨hturn, hdue, ⟨index, cycles, heq⟩, block, runner, hblock, hblockBuilt, -, hrunner,
    hattached⟩ := (h.follows hblocks).turn ⟨hbuilt, hblocks⟩
  have hsame : lane.turn.blocks = lane.blocks := by rw [heq]
  refine ⟨block, runner, hblock, hsame ▸ hrunner, hblockBuilt, hattached, hturn.progress, hdue, ?_⟩
  rw [step_eq_settle hunfinished hrunner, heq]

/-- An unfinished lane without blocks is finished by a step. -/
theorem step_of_no_blocks (h : Accounts registry plan origin outcomes exchanges lane)
    (hblocks : plan.blocks = []) (hunfinished : lane.finished = false) :
    lane.step = .done (.ok .endOfInput, { lane with finished := true }) := by
  have hnone : lane.blocks = [] := List.forall₂_nil_left_iff.mp (hblocks ▸ h.blocks)
  have hturn : lane.turn = lane := by simp [Lane.turn, hnone]
  simp [Lane.step, hunfinished, hturn, hnone]

/-- A step that fails leaves the totals, and the block whose turn it is. -/
theorem of_failure (h : Accounts registry plan origin outcomes exchanges lane)
    (hbuilt : ∀ block ∈ plan.blocks, block.IsBuilt) {error : ConvertError}
    (hfails : lane.step.Exchanges shows further (.error error, next)) :
    lane.KeepsTurn next := by
  cases hfinished : lane.finished with
  | true =>
    rw [Lane.step, if_pos hfinished] at hfails
    cases hfails
  | false =>
    by_cases hblocks : plan.blocks = []
    · rw [h.step_of_no_blocks hblocks hfinished] at hfails
      cases hfails
    · obtain ⟨block, runner, -, -, -, -, -, hdue, hrun⟩ :=
        h.exists_block hbuilt hblocks hfinished
      have hlimits := (h.follows hblocks).limits_eq
      have hturn := lane.turn_eq
      rw [hrun] at hfails
      obtain ⟨⟨cycleOutcome, later⟩, -, hsettle⟩ := exchanges_map.mp hfails
      cases cycleOutcome with
      | error _ =>
        -- The turn was taken before the failure, and stays with the block that it came to.
        obtain ⟨-, rfl⟩ := Prod.mk.inj hsettle
        have hnext : { lane.turn with source := later }.limits = plan.blocks.map (·.cycles) := by
          rw [hturn]
          exact hlimits
        have hagain := { lane.turn with source := later }.turn_eq
        rw [hnext, turnOf_of_due hdue] at hagain
        exact
          { summary := by rw [hturn]
            finished := by rw [hturn]
            blocks := by rw [hturn]
            blockIndex := by rw [hagain]
            blockCycles := by rw [hagain] }
      | ok cycle => cases cycle <;> cases (Prod.mk.inj hsettle).1

/-- A step that completes no cycle leaves the accounts, wherever it leaves the source if it fails.
-/
theorem idle (h : Accounts registry plan origin outcomes exchanges lane)
    (hidle : cycleOf? outcome = none) (halike : lane.Alike next)
    (hprogress : plan.blocks ≠ [] → Progress (plan.blocks.map (·.cycles))
      (completed outcomes).length next.blockIndex next.blockCycles)
    (hsummary : next.summary = lane.summary)
    (hfinished : next.finished = true ↔ lane.finished = true ∨ outcome = .ok .endOfInput)
    (hnothing : ¬Fails outcome → next.position = lane.position ∧ further = []) :
    Accounts registry plan origin (outcomes ++ [outcome]) (exchanges ++ further) next := by
  have hcycles : completed (outcomes ++ [outcome]) = completed outcomes := by
    rw [completed_concat, hidle]
    exact List.append_nil _
  refine
    { id_eq := halike.id.trans h.id_eq
      blocks := halike.blocks ▸ h.blocks
      progress := hcycles ▸ hprogress
      cycles := hcycles ▸ h.cycles
      summary := hcycles ▸ hsummary.trans h.summary
      finished := ?_
      unfailed := fun hall => ?_ }
  · rw [hfinished, h.finished, List.mem_append, List.mem_singleton, eq_comm (a := outcome)]
  · rw [List.forall_mem_append] at hall
    obtain ⟨hposition, htaken⟩ := h.unfailed hall.1
    obtain ⟨hsame, rfl⟩ := hnothing (hall.2 outcome (List.mem_singleton_self _))
    rw [hsame, hsummary, List.append_nil]
    exact ⟨hposition, htaken⟩

/-- A step that completes the next cycle of the schedule is counted. -/
theorem cycle (h : Accounts registry plan origin outcomes exchanges lane)
    (hunfinished : lane.finished = false) {block : BlockPlan} {later : ByteSource}
    (hblock : plan.blockAt (completed outcomes).length = some block)
    (hprogress : Progress (plan.blocks.map (·.cycles)) (completed outcomes).length
      lane.turn.blockIndex lane.turn.blockCycles)
    (hdue : Due (plan.blocks.map (·.cycles)) lane.turn.blockIndex lane.turn.blockCycles)
    (hposition : later.position = lane.position + block.size)
    (htaken : AllTaken further block.sampleCount) :
    Accounts registry plan origin (outcomes ++ [.ok (.cycle block.size block.sampleCount)])
      (exchanges ++ further)
      ({ lane.turn with source := later }.afterCycle block.size block.sampleCount) := by
  have hcycles : completed
      (outcomes ++ [.ok (.cycle block.size block.sampleCount)]) =
        completed outcomes ++ [(block.size, block.sampleCount)] := completed_concat _ _
  have hlength : (completed outcomes ++ [(block.size, block.sampleCount)]).length =
      (completed outcomes).length + 1 := by simp
  have hturn := lane.turn_eq
  refine
    { id_eq := ?_
      blocks := ?_
      progress := fun _ => ?_
      cycles := ?_
      summary := ?_
      finished := ?_
      unfailed := fun hall => ?_ }
  · rw [hturn]
    exact h.id_eq
  · rw [hturn]
    exact h.blocks
  · rw [hcycles, hlength]
    exact hprogress.next hdue
  · rw [hcycles, hlength, LanePlan.cycleTotals, List.range_succ, List.map_append,
      List.map_singleton, LanePlan.cycleSize, LanePlan.cycleSamples, hblock]
    exact congrArg (· ++ _) h.cycles
  · rw [hcycles, hturn, afterCycle, h.summary]
    simp [LaneSummary.ofCycles]
  · rw [hturn]
    simp [afterCycle, hunfinished, ← h.finished]
  · rw [List.forall_mem_append] at hall
    obtain ⟨hbefore, htakenBefore⟩ := h.unfailed hall.1
    rw [hturn]
    dsimp only [afterCycle, position] at hbefore hposition ⊢
    exact ⟨by omega, htakenBefore.append htaken⟩

/-- A step keeps the accounts, whatever it comes to. -/
theorem step (h : Accounts registry plan origin outcomes exchanges lane)
    (hbuilt : ∀ block ∈ plan.blocks, block.IsBuilt) (hsound : registry.Sound)
    (hstep : lane.step.Exchanges shows further (outcome, next)) :
    Accounts registry plan origin (outcomes ++ [outcome]) (exchanges ++ further) next := by
  cases hfinished : lane.finished with
  | true =>
    rw [Lane.step, if_pos hfinished] at hstep
    cases hstep
    exact h.idle rfl (.refl lane) h.progress rfl (by simp [hfinished]) fun _ => ⟨rfl, rfl⟩
  | false =>
    by_cases hblocks : plan.blocks = []
    · rw [h.step_of_no_blocks hblocks hfinished] at hstep
      cases hstep
      exact h.idle rfl ⟨rfl, rfl, rfl⟩ h.progress rfl (by simp) fun _ => ⟨rfl, rfl⟩
    · obtain ⟨block, runner, hblock, -, hblockBuilt, hattached, hprogress, hdue, hrun⟩ :=
        h.exists_block hbuilt hblocks hfinished
      rw [hrun] at hstep
      obtain ⟨⟨cycleOutcome, later⟩, hcycle, hsettle⟩ := exchanges_map.mp hstep
      obtain ⟨hcompleted, hend⟩ :=
        hattached.accounts_of_runCycle hblockBuilt.chunks hsound hcycle
      have hturn := lane.turn_eq
      cases cycleOutcome with
      | error error =>
        obtain ⟨rfl, rfl⟩ := Prod.mk.inj hsettle
        refine h.idle rfl ?_ (fun _ => hprogress) ?_ ?_ fun hok => absurd ⟨error, rfl⟩ hok
        · rw [hturn]
          exact ⟨rfl, rfl, rfl⟩
        · rw [hturn]
        · rw [hturn]
          simp
      | ok cycle =>
        cases cycle with
        | endOfInput =>
          obtain ⟨rfl, hposition⟩ := hend rfl
          obtain ⟨rfl, rfl⟩ := Prod.mk.inj hsettle
          refine h.idle rfl ?_ (fun _ => hprogress) ?_ (by simp) fun _ => ⟨hposition, rfl⟩
          · rw [hturn]
            exact ⟨rfl, rfl, rfl⟩
          · rw [hturn]
        | completed bytes samples =>
          obtain ⟨rfl, rfl, htaken, hposition⟩ := hcompleted bytes samples rfl
          obtain ⟨rfl, rfl⟩ := Prod.mk.inj hsettle
          exact h.cycle hfinished hblock hprogress hdue hposition htaken

end Accounts

variable {kind : SinkKind W S} {registry attached : Registry W S} {plan : LanePlan}
  {source : ByteSource} {started lane : Lane} {shows : Showing}
  {outcomes : List (Except ConvertError Step)} {exchanges : List Exchange}

/-- A lane that was started stands behind the offset of its file, at its first block, with nothing
counted. -/
theorem eq_of_start (h : start kind plan source registry = (.ok started, attached)) :
    started = { id := plan.id, blocks := started.blocks, source := started.source
                summary := { lane := plan.id } } ∧
      started.position = source.position + plan.file.offset := by
  have hkind : kind.Shows (fun _ => True) fun _ _ => True := .of_look fun _ _ => trivial
  obtain ⟨exchanges, hexchanges, -⟩ :=
    exists_exchanges_run hkind (source.fetchSkip plan.file.offset) registry trivial
  have hposition := (ByteSource.exchanges_fetch hexchanges).2
  unfold start at h
  dsimp only at h
  generalize ((source.fetchSkip plan.file.offset).run kind registry).1 = later at hposition h
  unfold skipOffset ByteSource.skip at h
  dsimp only at h
  cases hanswer : (later.read plan.file.offset).outcome with
  | error error =>
    rw [hanswer] at h
    cases h
  | ok fill =>
    have hserved := (ByteSource.read_of_ok hanswer).2
    rw [hanswer] at h
    cases fill with
    | empty => cases h
    | part got => cases h
    | full =>
      dsimp only at h
      split at h
      · cases h
      · cases h
        refine ⟨rfl, ?_⟩
        rw [← hposition]
        exact hserved

/-- The accounts of a lane that was just started. -/
theorem accounts_of_start (hregistry : registry.Consistent)
    (h : start kind plan source registry = (.ok started, attached)) :
    Accounts attached plan (source.position + plan.file.offset) [] [] started := by
  obtain ⟨-, -, hid, -, hblocks⟩ := start_attachesOk kind plan source _ _ _ hregistry h
  obtain ⟨heq, hposition⟩ := eq_of_start h
  rw [heq] at hposition ⊢
  exact
    { id_eq := rfl
      blocks := hblocks
      progress := fun hplan => .start fun hnone => hplan (List.map_eq_nil_iff.mp hnone)
      cycles := rfl
      summary := rfl
      finished := by simp
      unfailed := fun _ => ⟨hposition, .nil⟩ }

/-- The accounts are right after any steps. -/
theorem History.accounts (h : started.History shows outcomes exchanges lane)
    (hregistry : registry.Consistent) (hbuilt : ∀ block ∈ plan.blocks, block.IsBuilt)
    (hstart : Lane.start kind plan source registry = (.ok started, attached)) :
    Accounts attached plan (source.position + plan.file.offset) outcomes exchanges lane := by
  have hsound := (start_attachesOk kind plan source _ _ _ hregistry hstart).1.sound
  induction h with
  | start => exact accounts_of_start hregistry hstart
  | step _ hstep ih => exact ih.step hbuilt hsound hstep

end Lane

namespace LanePlan

variable {W S : Type} {kind : SinkKind W S} {registry attached : Registry W S}
  {descriptor : Descriptor} {decl : LaneDecl} {plan : LanePlan} {source : ByteSource}
  {started lane : Lane} {shows : Showing} {outcomes : List (Except ConvertError Step)}
  {exchanges : List Exchange}

/-- The next step of a lane runs a block, which is that of a cycle of the schedule. -/
structure Runs (plan : LanePlan) (attached : Registry W S) (lane : Lane) (cycle : ℕ)
    (block : BlockPlan) (runner : BlockRunner) : Prop where
  /-- The block is that of the cycle. -/
  block_eq : plan.blockAt cycle = some block
  /-- It stands in the lane where the schedule says. -/
  runner_eq : lane.blocks[schedule (plan.blocks.map (·.cycles)) cycle]? = some runner
  /-- Its streams have their sinks. -/
  attached : BlockRunner.Attached attached block runner
  /-- It has cycles left. -/
  due : ∀ count, block.cycles = .count count → lane.turn.blockCycles < count
  /-- A cycle of it is run. -/
  step_eq : lane.step = (runner.runCycle lane.id lane.source).map lane.turn.settle

/-- The accounts of a lane that was started at an origin, after steps that came to some outcomes by
some exchanges, and what its next step does. -/
structure Accounted (plan : LanePlan) (kind : SinkKind W S) (shows : Showing)
    (attached : Registry W S) (origin : ℕ) (outcomes : List (Except ConvertError Step))
    (exchanges : List Exchange) (lane : Lane) : Prop
    extends Lane.Accounts attached plan origin outcomes exchanges lane where
  /-- A further step of a finished lane comes to the end of the input again and changes nothing. -/
  step_finished : lane.finished = true → lane.step = .done (.ok .endOfInput, lane)
  /-- A lane without blocks is finished by its first step. -/
  step_no_blocks : lane.finished = false → plan.blocks = [] →
    lane.step = .done (.ok .endOfInput, { lane with finished := true })
  /-- The next step of an unfinished lane runs the block of the next cycle of the schedule. -/
  step_block : lane.finished = false → plan.blocks ≠ [] →
    ∃ block runner, plan.Runs attached lane (Lane.completed outcomes).length block runner
  /-- A step that fails leaves the totals, whether the lane is finished, and the block of the next
  step. -/
  step_fails : ∀ further error next, lane.step.Exchanges shows further (.error error, next) →
    lane.KeepsTurn next
  /-- With any sinks of the kind a step is one of these, and the sinks are given the samples of its
  exchanges. -/
  given : ∀ current : Registry W S, (∀ part world, shows part (kind.look part world)) →
    ∃ further, lane.step.Exchanges shows further (lane.step.run kind current).1 ∧
      (lane.step.run kind current).2 = current.consumeAll kind (further.map (·.delivery))

/-- A built lane that was started over any source has its accounts after any steps, also behind ones
that failed. -/
theorem accounts_of_history (hplan : build descriptor decl = .ok plan)
    (hregistry : registry.Consistent)
    (hstart : Lane.start kind plan source registry = (.ok started, attached))
    (hhistory : started.History shows outcomes exchanges lane) :
    plan.Accounted kind shows attached (source.position + plan.file.offset) outcomes exchanges
      lane := by
  have hbuilt := blocks_isBuilt_of_build hplan
  have haccounts := hhistory.accounts hregistry hbuilt hstart
  refine
    { haccounts with
      step_finished := fun hfinished => ?_
      step_no_blocks := fun hunfinished hnone => haccounts.step_of_no_blocks hnone hunfinished
      step_block := fun hunfinished hblocks => ?_
      step_fails := fun further error next => haccounts.of_failure hbuilt
      given := fun current hshows => ?_ }
  · rw [Lane.step, if_pos hfinished]
  · obtain ⟨block, runner, hblock, hrunner, -, hattached, hprogress, hdue, hstep⟩ :=
      haccounts.exists_block hbuilt hblocks hunfinished
    have hplace := hblock
    rw [blockAt, hprogress.schedule_eq hdue] at hplace
    refine ⟨block, runner, {
      block_eq := hblock
      runner_eq := by rw [hprogress.schedule_eq hdue, hrunner]
      attached := hattached
      due := fun count hcount => hdue count ?_
      step_eq := hstep }⟩
    rw [List.getElem?_map, hplace, Option.map_some, hcount]
  · obtain ⟨further, hrun, hgiven, -⟩ :=
      exists_exchanges_run (.of_look hshows) lane.step current trivial
    exact ⟨further, hrun, hgiven⟩

end LanePlan

/-- A lane of two blocks by turns, of which the second one has a footer. -/
def roundLane : LaneDecl where
  id := "P"
  systems := ["S"]
  blocks := [
    { cycles := 1
      chunks := [{ lumps := [{ streams := [{ id := "A", bands := ["L"] }] }] }] },
    { cycles := 1, sizeFooter := 1
      chunks := [{ lumps := [{ streams := [{ id := "A", bands := ["L"] }] }] }] }]

/-- A reader that fails behind the first cycle of the lane. -/
def faultyReader : Reader :=
  ⟨[.bytes [0, 0, 1], .failed "unplugged", .bytes [2, 3, 4], .interrupted]⟩

/-- The first step runs the first block, the second one fails in the second block, which the third
one runs again, and the fourth one begins a new round. -/
theorem exists_steps_of_roundLane :
    ∃ plan started attached first second third fourth,
      LanePlan.build packedRecording roundLane = .ok plan ∧ plan.id = "P" ∧
      plan.blocks.map (·.cycles) = [.count 1, .count 1] ∧
      Lane.start MemorySink.kind plan (.ofReader faultyReader) { world := () } =
        (.ok started, attached) ∧
      started.step.ownResult (fun _ => []) = (.ok (.cycle 1 1), first) ∧
      first.step.ownResult (fun _ => []) =
        (.error (.source "P" (.readFailed "unplugged")), second) ∧
      second.source.left (fun _ => []) = 3 ∧
      second.step.ownResult (fun _ => []) = (.ok (.cycle 2 1), third) ∧
      third.step.ownResult (fun _ => []) = (.ok (.cycle 1 1), fourth) :=
  ⟨_, _, _, _, _, _, _, rfl, rfl, rfl, by with_unfolding_all rfl, by with_unfolding_all rfl,
    by with_unfolding_all rfl, by with_unfolding_all rfl, by with_unfolding_all rfl,
    by with_unfolding_all rfl⟩

/-- Behind these four steps it is the second block's turn, and three cycles are counted. -/
theorem LanePlan.accounts_of_history_of_roundLane :
    ∃ plan started attached exchanges lane,
      build packedRecording roundLane = .ok plan ∧
      Lane.start MemorySink.kind plan (.ofReader faultyReader) { world := () } =
        (.ok started, attached) ∧
      started.History (.of fun _ => []) [.ok (.cycle 1 1),
        .error (.source "P" (.readFailed "unplugged")), .ok (.cycle 2 1), .ok (.cycle 1 1)]
        exchanges lane ∧
      lane.finished = false ∧
      lane.summary = { lane := "P", cycles := 3, bytes := 4, samples := 3 } ∧
      ∃ runner, lane.blocks[1]? = some runner ∧
        lane.step = (runner.runCycle lane.id lane.source).map lane.turn.settle := by
  obtain ⟨plan, started, attached, first, second, third, fourth, hplan, hid, hlimits, hstart,
    hfirst, hsecond, -, hthird, hfourth⟩ := exists_steps_of_roundLane
  have hown := fun lane : Lane => exchanges_own (fun _ => []) lane.step
  have hhistory := Lane.History.start
    |>.step (hfirst ▸ hown started) |>.step (hsecond ▸ hown first)
    |>.step (hthird ▸ hown second) |>.step (hfourth ▸ hown third)
  have hregistry : ({ world := () } : Registry Unit MemorySink).Consistent := .of_empty rfl rfl
  have haccounts := accounts_of_history hplan hregistry hstart hhistory
  have hunfinished : fourth.finished = false := by
    rw [← Bool.not_eq_true, haccounts.finished]
    simp
  have hblocks : plan.blocks ≠ [] := fun hnone => by
    rw [hnone] at hlimits
    cases hlimits
  obtain ⟨block, runner, hruns⟩ := haccounts.step_block hunfinished hblocks
  have hrunner := hruns.runner_eq
  rw [hlimits] at hrunner
  have hsummary := haccounts.summary
  rw [hid] at hsummary
  exact ⟨plan, started, attached, _, fourth, hplan, hstart, hhistory, hunfinished, hsummary, runner,
    hrunner, hruns.step_eq⟩

end SampleDemux
