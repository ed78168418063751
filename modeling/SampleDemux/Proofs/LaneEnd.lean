import SampleDemux.Proofs.LaneHistory

/-!
# The end of a lane's loop

A lane is driven by steps until one fails or finds the end of the input. The loop itself says
nothing of progress: that it ends rests on the blocks, which take at least one byte each cycle if
their plans were built. So no loop makes more than one step more than there are bytes left, whatever
the sinks reply, wherever the source fails, and whatever was done to the lane before. The loop here
is one without a number of steps; that driving a lane is this loop says that the number of steps
that it is given is always enough.
-/

namespace SampleDemux

open Process

section Courses

variable {shows : Showing} {contents : Location → List UInt8} {exchanges : List Exchange}

/-- A cycle that is completed takes its bytes, whatever course it took. -/
theorem BlockRunner.left_of_runCycle {block : BlockRunner} {lane : String}
    {source behind : ByteSource} {bytes samples : ℕ}
    (hshows : shows.KeepsTo contents source.Reads)
    (h : (block.runCycle lane source).Exchanges shows exchanges
      (.ok (.completed bytes samples), behind)) :
    behind.left contents + block.size ≤ source.left contents := by
  have hown := (block.runCycle_orderly lane source).eq_ownResult hshows h (not_fails_ok _)
  have hleft := @left_runCycle lane source block contents bytes samples
  rw [hown] at hleft
  exact hleft rfl

namespace Lane

/-- A lane is driven to its end by so many steps and by these exchanges. -/
inductive Loop (shows : Showing) : Lane → ℕ → List Exchange → Drive → Prop
  /-- A step fails, and is the last one. -/
  | failed {lane next : Lane} {exchanges : List Exchange} {error : ConvertError}
      (hstep : lane.step.Exchanges shows exchanges (.error error, next)) :
      Loop shows lane 1 exchanges ⟨.error error, [], next⟩
  /-- A step finds the end of the input, and is the last one. -/
  | ended {lane next : Lane} {exchanges : List Exchange}
      (hstep : lane.step.Exchanges shows exchanges (.ok .endOfInput, next)) :
      Loop shows lane 1 exchanges ⟨.ok next.summary, [⟨next.position, next.finished⟩], next⟩
  /-- A step completes a cycle, and others follow. -/
  | cycle {lane next : Lane} {first rest : List Exchange} {bytes samples steps : ℕ} {drive : Drive}
      (hstep : lane.step.Exchanges shows first (.ok (.cycle bytes samples), next))
      (h : Loop shows next steps rest drive) :
      Loop shows lane (steps + 1) (first ++ rest)
        { drive with seen := ⟨next.position, next.finished⟩ :: drive.seen }

variable {lane next later : Lane} {bytes samples steps : ℕ} {drive : Drive}

/-- A step that completes a cycle runs one of a block of the lane. -/
theorem exists_runCycle_of_cycle
    (h : lane.step.Exchanges shows exchanges (.ok (.cycle bytes samples), next)) :
    ∃ block ∈ lane.blocks, (block.runCycle lane.id lane.source).Exchanges shows exchanges
      (.ok (.completed bytes samples), next.source) := by
  obtain ⟨-, hstep⟩ | hstep | ⟨block, hblock, hstep⟩ := lane.step_cases
  · rw [hstep] at h
    cases h
  · rw [hstep] at h
    cases h
  · rw [hstep] at h
    obtain ⟨⟨outcome, behind⟩, hcycle, hsettle⟩ := exchanges_map.mp h
    refine ⟨block, hblock, ?_⟩
    match outcome with
    | .error error => cases hsettle
    | .ok .endOfInput => cases hsettle
    | .ok (.completed bytes samples) =>
      cases hsettle
      exact hcycle

/-- A step that completes a cycle takes bytes, and the lane behind it goes on as before. -/
theorem left_of_cycle (hpositive : lane.CyclesPositive)
    (hshows : shows.KeepsTo contents lane.source.Reads)
    (h : lane.step.Exchanges shows exchanges (.ok (.cycle bytes samples), next)) :
    next.source.left contents < lane.source.left contents ∧
      next.CyclesPositive ∧ shows.KeepsTo contents next.source.Reads := by
  obtain ⟨block, hblock, hcycle⟩ := exists_runCycle_of_cycle h
  have htaken := BlockRunner.left_of_runCycle hshows hcycle
  have hsize := hpositive block hblock
  have hlater := (lane.later_of_step h.canReturn).1
  refine ⟨by omega, hpositive.of_blocks hlater.blocks, ?_⟩
  rw [hlater.leads.reads_eq]
  exact hshows

/-- A loop makes at most one step more than there are bytes left. -/
theorem Loop.steps_le (h : lane.Loop shows steps exchanges drive)
    (hpositive : lane.CyclesPositive) (hshows : shows.KeepsTo contents lane.source.Reads) :
    steps ≤ lane.source.left contents + 1 := by
  induction h with
  | failed _ => exact Nat.le_add_left 1 _
  | ended _ => exact Nat.le_add_left 1 _
  | cycle hstep _ ih =>
    obtain ⟨htaken, hnext, hfile⟩ := left_of_cycle hpositive hshows hstep
    have hrest := ih hnext hfile
    omega

/-- More steps than there are bytes left are enough for the loop. -/
theorem exchanges_driveSteps (hpositive : lane.CyclesPositive)
    (hshows : shows.KeepsTo contents lane.source.Reads) {enough : ℕ}
    (henough : lane.source.left contents < enough) (seen : List Sight) :
    (driveSteps seen enough lane).Exchanges shows exchanges drive ↔
      ∃ steps rest, lane.Loop shows steps exchanges rest ∧
        drive = { rest with seen := seen.reverse ++ rest.seen } := by
  induction enough generalizing seen lane exchanges with
  | zero => omega
  | succ enough ih =>
    rw [driveSteps, exchanges_bind]
    constructor
    · rintro ⟨first, rest, ⟨outcome, next⟩, hstep, hdrive, rfl⟩
      cases outcome with
      | error error =>
        cases hdrive
        exact ⟨1, _, .failed (by rwa [List.append_nil]), by simp⟩
      | ok answer =>
        cases answer with
        | endOfInput =>
          cases hdrive
          exact ⟨1, _, .ended (by rwa [List.append_nil]), by simp⟩
        | cycle bytes samples =>
          obtain ⟨htaken, hnext, hfile⟩ := left_of_cycle hpositive hshows hstep
          -- What is left behind the cycle is less than the steps that are left.
          obtain ⟨steps, others, hloop, rfl⟩ := (ih hnext hfile (by omega) _).mp hdrive
          exact ⟨steps + 1, _, .cycle hstep hloop, by simp⟩
    · rintro ⟨steps, rest, hloop, rfl⟩
      cases hloop with
      | failed hstep =>
        exact ⟨_, [], _, hstep, by simpa using Exchanges.done _, (List.append_nil _).symm⟩
      | ended hstep =>
        exact ⟨_, [], _, hstep, by simpa using Exchanges.done _, (List.append_nil _).symm⟩
      | cycle hstep hloop =>
        obtain ⟨htaken, hnext, hfile⟩ := left_of_cycle hpositive hshows hstep
        refine ⟨_, _, _, hstep, ?_, rfl⟩
        exact (ih hnext hfile (by omega) _).mpr ⟨_, _, hloop, by simp⟩

/-- Driving a lane is the loop. -/
theorem exchanges_drive (hbounded : lane.Bounded contents)
    (hshows : shows.KeepsTo contents lane.source.Reads) :
    lane.drive.Exchanges shows exchanges drive ↔
      ∃ steps, lane.Loop shows steps exchanges drive := by
  have hbound := lane.source.left_le_bound contents hbounded.contents_le
  rw [Lane.drive, exchanges_driveSteps hbounded.positive hshows (by omega)]
  constructor
  · rintro ⟨steps, rest, hloop, rfl⟩
    exact ⟨steps, hloop⟩
  · rintro ⟨steps, hloop⟩
    exact ⟨steps, drive, hloop, rfl⟩

/-- Running a lane is the loop, unobserved. -/
theorem exchanges_run (hbounded : lane.Bounded contents)
    (hshows : shows.KeepsTo contents lane.source.Reads)
    {outcome : Except ConvertError LaneSummary} :
    lane.run.Exchanges shows exchanges (outcome, later) ↔
      ∃ steps seen, lane.Loop shows steps exchanges ⟨outcome, seen, later⟩ := by
  rw [Lane.run, exchanges_map]
  constructor
  · rintro ⟨drive, hdrive, hresult⟩
    obtain ⟨steps, hloop⟩ := (exchanges_drive hbounded hshows).mp hdrive
    cases hresult
    exact ⟨steps, drive.seen, hloop⟩
  · rintro ⟨steps, seen, hloop⟩
    exact ⟨_, (exchanges_drive hbounded hshows).mpr ⟨steps, hloop⟩, rfl⟩

end Lane

end Courses

namespace Converter

variable {W S : Type} {kind : SinkKind W S} {usable : W → Prop} {shows : Showing}
  {registry : Registry W S} {lanes : List Lane} {lane : Lane} {index : ℕ}

/-- One of several lanes was driven in a run, and this was seen of it and became of it. -/
def Drives (shows : Showing) (lane : Lane) (index : ℕ) (seen : List (List Lane.Sight))
    (lanes : List Lane) : Prop :=
  ∃ exchanges drive, lane.drive.Exchanges shows exchanges drive ∧
    seen[index]? = some drive.seen ∧ lanes[index]? = some drive.lane

/-- Of lanes one after the other each one is driven, up to the first that fails. -/
theorem driveInOrder_drives (hkind : kind.Shows usable shows) (hworld : usable registry.world)
    (hlane : lanes[index]? = some lane) :
    Drives shows lane index (driveInOrder kind lanes registry).1.seen
        (driveInOrder kind lanes registry).2.1 ∨
      Fails (driveInOrder kind lanes registry).1.outcome ∧
        (driveInOrder kind lanes registry).1.seen[index]? = none ∧
        (driveInOrder kind lanes registry).2.1[index]? = some lane := by
  induction lanes generalizing registry index with
  | nil => cases hlane
  | cons first lanes ih =>
    obtain ⟨exchanges, hrun, -, hnext⟩ := exists_exchanges_run hkind first.drive registry hworld
    unfold driveInOrder
    generalize first.drive.run kind registry = result at hrun hnext ⊢
    obtain ⟨⟨outcome, seen, next⟩, between⟩ := result
    cases index with
    | zero =>
      cases hlane
      cases outcome <;> exact .inl ⟨exchanges, _, hrun, rfl, rfl⟩
    | succ index =>
      cases outcome with
      | error error => exact .inr ⟨⟨error, rfl⟩, rfl, hlane⟩
      | ok summary =>
        rcases ih hnext hlane with hdrives | ⟨⟨error, herror⟩, hunseen, hleft⟩
        · exact .inl hdrives
        · dsimp only
          rw [herror]
          exact .inr ⟨⟨error, rfl⟩, hunseen, hleft⟩

/-- Of lanes by turns each one is driven, whatever the schedule. -/
theorem driveByTurns_drives (hkind : kind.Shows usable shows) (hworld : usable registry.world)
    (schedule : List ℕ) (hlane : lanes[index]? = some lane) :
    Drives shows lane index (driveByTurns kind schedule lanes registry).1.seen
      (driveByTurns kind schedule lanes registry).2.1 := by
  have hdrives := exists_exchanges_interleave hkind schedule (lanes.map Lane.drive) hworld
  have hdrive : (lanes.map Lane.drive)[index]? = some lane.drive := by
    rw [List.getElem?_map, hlane, Option.map_some]
  obtain ⟨drive, hat, exchanges, hexchanges⟩ := exists_getElem?_of_forall₂ hdrives hdrive
  refine ⟨exchanges, drive, hexchanges, ?_, ?_⟩
  · simp only [driveByTurns, List.getElem?_map, hat, Option.map_some]
  · simp only [driveByTurns, List.getElem?_map, hat, Option.map_some]

variable {converter : Converter W S}

/-- In a run of an open converter a lane is driven, or was left alone because one before it had
failed. -/
theorem runWith_drives (hkind : converter.kind.Shows usable shows)
    (hworld : usable converter.registry.world) (hopen : converter.isOpen = true) (mode : RunMode)
    (hlane : converter.lanes[index]? = some lane) :
    Drives shows lane index (converter.runWith mode).1.seen (converter.runWith mode).2.lanes ∨
      mode = .sequential ∧ Fails (converter.runWith mode).1.outcome ∧
        (converter.runWith mode).1.seen[index]? = none ∧
        (converter.runWith mode).2.lanes[index]? = some lane := by
  -- Finishing the sinks makes no difference for what was seen, and none for the lanes.
  have hsame : (converter.runWith mode).1.seen = (converter.driveLanes mode).1.seen ∧
      (converter.runWith mode).2.lanes = (converter.driveLanes mode).2.1 ∧
      (Fails (converter.driveLanes mode).1.outcome →
        Fails (converter.runWith mode).1.outcome) := by
    cases houtcome : (converter.driveLanes mode).1.outcome with
    | error error =>
      rw [runWith_of_error hopen mode houtcome, houtcome]
      exact ⟨rfl, rfl, id⟩
    | ok summaries =>
      rw [runWith_of_ok hopen mode houtcome]
      exact ⟨rfl, rfl, nofun⟩
  obtain ⟨hseen, hlanes, hfails⟩ := hsame
  rw [hseen, hlanes]
  cases mode with
  | sequential =>
    refine (driveInOrder_drives hkind hworld hlane).imp_right fun ⟨hfailed, hunseen, hleft⟩ => ?_
    exact ⟨rfl, hfails hfailed, hunseen, hleft⟩
  | parallel schedule => exact .inl (driveByTurns_drives hkind hworld schedule hlane)

end Converter

namespace LanePlan

variable {W S : Type} {kind : SinkKind W S} {registry attached : Registry W S}
  {descriptor : Descriptor} {decl : LaneDecl} {plan : LanePlan} {source : ByteSource}
  {started lane : Lane} {shows : Showing} {contents : Location → List UInt8}
  {outcomes : List (Except ConvertError Step)} {exchanges : List Exchange}

/-- A loop of steps of a lane comes to its end, wherever it is made. -/
structure LoopEnds (kind : SinkKind W S) (shows : Showing) (contents : Location → List UInt8)
    (lane : Lane) : Prop where
  /-- A step that completes a cycle takes as many bytes as it says, and at least one of those that
  are left. -/
  cycle : ∀ made bytes samples next,
    lane.step.Exchanges shows made (.ok (.cycle bytes samples), next) →
      0 < bytes ∧ next.position = lane.position + bytes ∧
        next.source.left contents + bytes ≤ lane.source.left contents
  /-- A loop of steps makes at most one more of them than there are bytes left, whatever the sinks
  reply and wherever the source fails. -/
  steps_le : ∀ steps made drive, lane.Loop shows steps made drive →
    steps ≤ lane.source.left contents + 1
  /-- Driving the lane is this loop, by whatever exchanges. -/
  drive_iff : ∀ made drive, lane.drive.Exchanges shows made drive ↔
    ∃ steps, lane.Loop shows steps made drive
  /-- So is running it. -/
  run_iff : ∀ made outcome later, lane.run.Exchanges shows made (outcome, later) ↔
    ∃ steps seen, lane.Loop shows steps made ⟨outcome, seen, later⟩
  /-- With any sinks of a kind that leaves the lane's file as it is, a run comes to such a loop. -/
  run : ∀ (current : Registry W S) (usable : W → Prop), kind.Shows usable shows →
    usable current.world → ∃ steps made seen,
      lane.Loop shows steps made
        ⟨(lane.run.run kind current).1.1, seen, (lane.run.run kind current).1.2⟩ ∧
      (lane.run.run kind current).2 = current.consumeAll kind (made.map (·.delivery))
  /-- So does a run of a converter that the lane belongs to, whatever its other lanes and in
  whatever mode, unless a lane before it fails in a sequential one and it is not driven at all. -/
  runWith : ∀ (converter : Converter W S) (usable : W → Prop) (mode : Converter.RunMode)
    (index : ℕ), converter.kind.Shows usable shows → usable converter.registry.world →
    converter.isOpen = true → converter.lanes[index]? = some lane →
      (∃ steps made drive, lane.Loop shows steps made drive ∧
        (converter.runWith mode).1.seen[index]? = some drive.seen ∧
        (converter.runWith mode).2.lanes[index]? = some drive.lane) ∨
      mode = .sequential ∧ Fails (converter.runWith mode).1.outcome ∧
        (converter.runWith mode).1.seen[index]? = none ∧
        (converter.runWith mode).2.lanes[index]? = some lane

/-- A built lane that was started over any source, after any steps, also behind ones that failed,
comes to its end. Its file, if it reads one, shows what it holds and is no longer than a file can
be. -/
theorem loop_ends_of_history (hplan : build descriptor decl = .ok plan)
    (hregistry : registry.Consistent)
    (hstart : Lane.start kind plan source registry = (.ok started, attached))
    (hhistory : started.History shows outcomes exchanges lane)
    (hshows : shows.KeepsTo contents lane.source.Reads)
    (hlength : ∀ location, lane.source.Reads location →
      (contents location).length ≤ ByteSource.fileBound) :
    LoopEnds kind shows contents lane := by
  have hbuilt := blocks_isBuilt_of_build hplan
  have haccounts := hhistory.accounts hregistry hbuilt hstart
  have hsound := (Lane.start_attachesOk kind plan source _ _ _ hregistry hstart).1.sound
  have hpositive := Lane.cyclesPositive_of_attached haccounts.blocks hbuilt
  have hbounded : lane.Bounded contents := ⟨hpositive, hlength⟩
  constructor
  case cycle =>
    intro made bytes samples next hstep
    obtain ⟨block, hblock, hcycle⟩ := Lane.exists_runCycle_of_cycle hstep
    obtain ⟨blockPlan, hmem, hattached⟩ := exists_mem_of_forall₂ haccounts.blocks hblock
    obtain ⟨hcompleted, -⟩ := hattached.accounts_of_runCycle (hbuilt blockPlan hmem).chunks hsound
      hcycle
    obtain ⟨rfl, -, -, hposition⟩ := hcompleted bytes samples rfl
    have htaken := BlockRunner.left_of_runCycle hshows hcycle
    rw [hattached.size_eq] at htaken
    exact ⟨(hbuilt blockPlan hmem).size_pos, hposition, htaken⟩
  case steps_le => exact fun steps made drive hloop => hloop.steps_le hpositive hshows
  case drive_iff => exact fun made drive => Lane.exchanges_drive hbounded hshows
  case run_iff => exact fun made outcome later => Lane.exchanges_run hbounded hshows
  case run =>
    intro current usable hkind hworld
    obtain ⟨made, hrun, hgiven, -⟩ := exists_exchanges_run hkind lane.run current hworld
    obtain ⟨steps, seen, hloop⟩ := (Lane.exchanges_run hbounded hshows).mp hrun
    exact ⟨steps, made, seen, hloop, hgiven⟩
  case runWith =>
    intro converter usable mode index hkind hworld hopen hlane
    refine (Converter.runWith_drives hkind hworld hopen mode hlane).imp_left ?_
    rintro ⟨made, drive, hdrive, hseen, hleft⟩
    obtain ⟨steps, hloop⟩ := (Lane.exchanges_drive hbounded hshows).mp hdrive
    exact ⟨steps, made, drive, hloop, hseen, hleft⟩

end LanePlan

/-- Behind the step that failed three bytes are left. Whatever the sinks reply, the lane then makes
at most four steps. -/
theorem LanePlan.loop_ends_of_history_of_roundLane :
    ∃ plan started attached exchanges lane,
      build packedRecording roundLane = .ok plan ∧
      Lane.start MemorySink.kind plan (.ofReader faultyReader) { world := () } =
        (.ok started, attached) ∧
      started.History (.of fun _ => [])
        [.ok (.cycle 1 1), .error (.source "P" (.readFailed "unplugged"))] exchanges lane ∧
      lane.source.left (fun _ => []) = 3 ∧
      ∀ made drive, lane.drive.Exchanges (.of fun _ => []) made drive →
        ∃ steps ≤ 4, lane.Loop (.of fun _ => []) steps made drive := by
  obtain ⟨plan, started, attached, first, second, -, -, hplan, -, -, hstart, hfirst, hsecond, hleft,
    -⟩ := exists_steps_of_roundLane
  have hown := fun lane : Lane => exchanges_own (fun _ => []) lane.step
  have hhistory := Lane.History.start
    |>.step (hfirst ▸ hown started) |>.step (hsecond ▸ hown first)
  have hregistry : ({ world := () } : Registry Unit MemorySink).Consistent := .of_empty rfl rfl
  have hshows : (Showing.of fun _ => []).KeepsTo (fun _ => []) second.source.Reads :=
    fun _ _ _ hdata => hdata
  have hends :=
    loop_ends_of_history hplan hregistry hstart hhistory hshows fun _ _ => Nat.zero_le _
  refine ⟨plan, started, attached, _, second, hplan, hstart, hhistory, hleft,
    fun made drive hmade => ?_⟩
  obtain ⟨steps, hloop⟩ := (hends.drive_iff made drive).mp hmade
  have hle := hends.steps_le steps made drive hloop
  rw [hleft] at hle
  exact ⟨steps, hle, hloop⟩

end SampleDemux
