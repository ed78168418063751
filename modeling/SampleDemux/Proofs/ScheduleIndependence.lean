import SampleDemux.Proofs.OpenConverter

/-!
# Runs do not depend on their schedule

The lanes of an open converter may be stepped by hand and then run in either mode, by turns as any
schedule says. As long as nothing fails, every sink is given a merge of the lanes' own samples for
it and is finished then; the totals and what an observer sees of a lane are the lane's own. If no
two lanes have a stream in common, every sink is given the very samples that it is given when the
lanes are run one after the other. A further run finds finished lanes, and does no more than finish
the sinks again.
-/

namespace SampleDemux

open Process

namespace Lane

variable (contents : Location → List UInt8) (lane : Lane)

/-- The samples of a lane, in order, over files with given contents. -/
def ownSamples : List Delivery := lane.drive.ownDeliveries contents

/-- The totals of a lane at its end, or its failure, over files with given contents. -/
def ownOutcome : Except ConvertError LaneSummary := (lane.drive.ownResult contents).outcome

/-- The samples of a lane for one stream, in order, over files with given contents. -/
def ownSamplesOf (stream : String) : List Delivery :=
  (lane.ownSamples contents).filter (·.record.id == stream)

/-- What an observer sees of a lane, over files with given contents. -/
def ownSights : List Sight := (lane.drive.ownResult contents).seen

/-- A lane at its end, over files with given contents. -/
def ownEnd : Lane := (lane.drive.ownResult contents).lane

variable {contents}

/-- Lanes that come to their ends without a failure are finished then, with their totals. -/
theorem finished_of_ownOutcomes {lanes : List Lane}
    (hbounded : ∀ lane ∈ lanes, lane.Bounded contents) {summaries : List LaneSummary}
    (h : lanes.map (·.ownOutcome contents) = summaries.map .ok) :
    (∀ lane ∈ lanes.map (·.ownEnd contents), lane.finished = true) ∧
      (lanes.map (·.ownEnd contents)).map (·.summary) = summaries := by
  induction lanes generalizing summaries with
  | nil =>
    rw [List.map_nil, eq_comm, List.map_eq_nil_iff] at h
    exact ⟨List.forall_mem_nil _, h.symm⟩
  | cons lane lanes ih =>
    rcases List.forall_mem_cons.mp hbounded with ⟨hfirst, hothers⟩
    cases summaries with
    | nil => cases h
    | cons summary summaries =>
      rcases List.cons_eq_cons.mp h with ⟨hlane, hlanes⟩
      rcases finished_of_drive hfirst hlane with ⟨hfinished, htotals⟩
      rcases ih hothers hlanes with ⟨hfinishedRest, htotalsRest⟩
      exact ⟨List.forall_mem_cons.mpr ⟨hfinished, hfinishedRest⟩,
        List.cons_eq_cons.mpr ⟨htotals, htotalsRest⟩⟩

end Lane

namespace Converter

variable {W S : Type} {converter stepped : Converter W S} {setting : Setting W S}

/-- No two lanes have a stream in common. -/
def StreamsDisjoint (converter : Converter W S) : Prop :=
  converter.lanes.Pairwise fun lane other => ∀ stream ∈ lane.streams, stream ∉ other.streams

/-- Whether two lanes have a stream in common can be told. -/
instance StreamsDisjoint.decidable (converter : Converter W S) :
    Decidable converter.StreamsDisjoint :=
  inferInstanceAs (Decidable (List.Pairwise _ converter.lanes))

/-- A converter is stepped by hand if one lane after the other makes a step that does not fail. -/
inductive Stepped : Converter W S → Converter W S → Prop
  /-- No step was made. -/
  | refl (converter : Converter W S) : Stepped converter converter
  /-- A lane makes a step, and further steps follow. -/
  | step {converter stepped : Converter W S} (index : ℕ) {outcome : Step}
      (hstep : (converter.stepLane index).1 = some (.ok outcome))
      (hrest : Stepped (converter.stepLane index).2 stepped) : Stepped converter stepped

/-- An open converter with isolated sinks, over files that no sink changes. -/
structure Ready (setting : Setting W S) (converter : Converter W S) : Prop where
  /-- The converter is open. -/
  isOpen : converter.isOpen = true
  /-- Its lanes deliver to sinks of a consistent registry. -/
  consistent : converter.Consistent
  /-- Its sinks are isolated. -/
  kind : converter.kind.Isolated setting
  /-- What the sinks share is as it should be. -/
  usable : setting.usable converter.registry.world
  /-- Its lanes read inputs. -/
  inputs : ∀ lane ∈ converter.lanes, ∀ location, lane.source.Reads location →
    setting.inputs location

/-- A lane of a ready converter comes to its end. -/
theorem Ready.bounded (h : converter.Ready setting) {lane : Lane} (hlane : lane ∈ converter.lanes) :
    lane.Bounded setting.contents :=
  ⟨(h.consistent.lanes lane hlane).positive, fun location hreads =>
    h.kind.contents_le location (h.inputs lane hlane location hreads)⟩

/-- Driving a lane of a ready converter is orderly. -/
theorem Ready.drive_orderly (h : converter.Ready setting) {lane : Lane}
    (hlane : lane ∈ converter.lanes) :
    lane.drive.Orderly lane.Feeds setting.inputs fun drive => Fails drive.outcome :=
  (lane.driveSteps_orderly _ _).mono (fun _ howns => howns) (h.inputs lane hlane)

section Steps

/-- A step by hand that does not fail is the lane's own step: its samples are taken, and the lane is
replaced by what the step leaves. -/
theorem Ready.stepLane (h : converter.Ready setting) {index : ℕ} {outcome : Step}
    (hstep : (converter.stepLane index).1 = some (.ok outcome)) :
    ∃ lane next, converter.lanes[index]? = some lane ∧
      lane.step.ownResult setting.contents = (.ok outcome, next) ∧
      converter.registry.Takes converter.kind (lane.step.ownDeliveries setting.contents) ∧
      (converter.stepLane index).2 =
        { converter with
          lanes := converter.lanes.set index next
          registry := converter.registry.consumeAll converter.kind
            (lane.step.ownDeliveries setting.contents) } := by
  unfold Converter.stepLane at hstep ⊢
  cases hlane : converter.lanes[index]? with
  | none =>
    rw [hlane] at hstep
    cases hstep
  | some lane =>
    rw [hlane] at hstep
    have hmem := List.mem_of_getElem? hlane
    have horderly := lane.step_orderly.mono (fun _ howns => howns) (h.inputs lane hmem)
    rcases exists_runsTo h.kind h.usable horderly with ⟨ending, hending⟩
    dsimp only at hstep ⊢
    rw [hending.run_eq] at hstep ⊢
    have hresult : ending.2.1 = .ok outcome := Option.some_inj.mp hstep
    have hok : ¬Fails ending.2.1 := by
      rw [hresult]
      exact not_fails_ok outcome
    have hown := hending.ends.eq_own hok
    have htakes := hending.takes hok
    subst hown
    exact ⟨lane, _, rfl, Prod.ext hresult rfl, htakes, rfl⟩

/-- A ready converter is ready after a step that does not fail. -/
theorem Ready.of_stepLane (h : converter.Ready setting) {index : ℕ} {outcome : Step}
    (hstep : (converter.stepLane index).1 = some (.ok outcome)) :
    (converter.stepLane index).2.Ready setting := by
  have hconsistent := (converter.stepLane_shape index).consistent h.consistent
  rcases h.stepLane hstep with ⟨lane, next, hlane, hnext, -, hstepped⟩
  rw [hstepped] at hconsistent ⊢
  refine ⟨h.isOpen, hconsistent, h.kind, Registry.consumeAll_usable h.kind h.usable _, ?_⟩
  intro other hother location hreads
  rcases List.mem_or_eq_of_mem_set hother with hother | rfl
  · exact h.inputs other hother location hreads
  · have hreturn := lane.step.canReturn_ownResult setting.contents
    rw [hnext] at hreturn
    rw [(lane.later_of_step hreturn).1.leads.reads_eq] at hreads
    exact h.inputs lane (List.mem_of_getElem? hlane) location hreads

/-- What was done by hand before a run: some samples were given to the sinks and taken, and what
the lanes still deliver completes them to what the lanes delivered before. -/
structure SteppedBy (setting : Setting W S) (converter stepped : Converter W S)
    (calls : List Delivery) : Prop where
  /-- The samples were given to the sinks. -/
  registry : stepped.registry = converter.registry.consumeAll converter.kind calls
  /-- They were taken. -/
  takes : converter.registry.Takes converter.kind calls
  /-- The sinks are of the same kind. -/
  kind : stepped.kind = converter.kind
  /-- With any merge of what the lanes still deliver they are one of what they delivered before. -/
  merge : ∀ rest, IsMerge rest (stepped.lanes.map (·.ownSamples setting.contents)) →
    IsMerge (calls ++ rest) (converter.lanes.map (·.ownSamples setting.contents))
  /-- The lanes come to the same totals. -/
  outcomes : stepped.lanes.map (·.ownOutcome setting.contents) =
    converter.lanes.map (·.ownOutcome setting.contents)

/-- Stepping by hand gives the lanes' own samples to the sinks, in the order of the steps. -/
theorem Ready.of_stepped (h : converter.Ready setting) (hsteps : Stepped converter stepped) :
    stepped.Ready setting ∧ ∃ calls, SteppedBy setting converter stepped calls := by
  induction hsteps with
  | refl converter => exact ⟨h, [], rfl, trivial, rfl, fun _ hrest => hrest, rfl⟩
  | @step converter stepped index outcome hstep _ ih =>
    -- The samples of the step come before those of the later steps: the lane that was stepped
    -- delivers them first, and goes on as the lane that the step leaves.
    rcases ih (h.of_stepLane hstep) with ⟨hready, calls, hcalls⟩
    rcases h.stepLane hstep with ⟨lane, next, hlane, hnext, htakes, hstepped⟩
    have hown := Lane.own_drive_of_step (h.bounded (List.mem_of_getElem? hlane)) hnext
    have hregistry := hcalls.registry
    have htaken := hcalls.takes
    have hmerge := hcalls.merge
    have houtcomes := hcalls.outcomes
    have hkind := hcalls.kind
    rw [hstepped] at hregistry htaken hmerge houtcomes hkind
    refine ⟨hready, lane.step.ownDeliveries setting.contents ++ calls, ?_, ?_, hkind,
      fun rest hrest => ?_, ?_⟩
    · rw [hregistry, Registry.consumeAll_append]
    · exact (Registry.takes_append _ _).mpr ⟨htakes, htaken⟩
    · have hparts := map_eq_modify_set (Lane.ownSamples setting.contents)
        (lane.step.ownDeliveries setting.contents ++ ·) hlane hown.1
      have hbound := (List.getElem?_eq_some_iff.mp hlane).1
      rw [hparts, List.append_assoc]
      exact (hmerge rest hrest).prepend _ (by rwa [List.length_map, List.length_set])
    · rw [houtcomes]
      exact map_set_of_eq hlane hown.2.1.symm

end Steps

section Drive

/-- There are totals of all drives if and only if none of them failed. -/
theorem firstFailure_eq_ok {drives : List Lane.Drive} {summaries : List LaneSummary} :
    firstFailure drives = .ok summaries ↔ drives.map (·.outcome) = summaries.map .ok := by
  induction drives generalizing summaries with
  | nil => simp [firstFailure, eq_comm]
  | cons drive drives ih =>
    unfold firstFailure
    cases houtcome : drive.outcome with
    | error error => cases summaries <;> simp [houtcome]
    | ok summary =>
      dsimp only
      cases hrest : firstFailure drives with
      | error error =>
        cases summaries with
        | nil => simp [Except.map]
        | cons first summaries =>
          have hnot := (@ih summaries).not.mp (by rw [hrest]; nofun)
          simp [Except.map, houtcome, hnot]
      | ok totals =>
        have htotals := ih.mp hrest
        simp only [Except.map, Except.ok.injEq, List.map_cons, houtcome, htotals]
        cases summaries <;> simp [List.map_inj_right]

/-- Lanes that are driven one after the other without a failure are driven as by turns that nothing
interrupts, and the other way round. -/
theorem driveInOrder_eq (kind : SinkKind W S) (lanes : List Lane) (registry : Registry W S)
    {summaries : List LaneSummary}
    (h : (driveInOrder kind lanes registry).1.outcome = .ok summaries ∨
      (driveByTurns kind [] lanes registry).1.outcome = .ok summaries) :
    driveInOrder kind lanes registry = driveByTurns kind [] lanes registry := by
  induction lanes generalizing registry summaries with
  | nil => rfl
  | cons lane lanes ih =>
    unfold driveByTurns at ih ⊢
    unfold driveByTurns at h
    simp only [driveInOrder, interleave, List.map_cons, runEach] at h ih ⊢
    generalize lane.drive.run kind registry = result at h ⊢
    rcases result with ⟨⟨outcome, seen, next⟩, between⟩
    cases outcome with
    | error error =>
      -- Only here the two differ: by turns, the lanes behind the failing one are driven as well.
      simp [firstFailure] at h
    | ok summary =>
      simp only [firstFailure] at h ⊢
      have hrest : ∃ totals, (driveInOrder kind lanes between).1.outcome = .ok totals ∨
          firstFailure (runEach kind (lanes.map Lane.drive) between).1 = .ok totals := by
        rcases h with h | h
        · cases hothers : (driveInOrder kind lanes between).1.outcome with
          | error error =>
            rw [hothers] at h
            cases h
          | ok totals => exact ⟨totals, .inl rfl⟩
        · cases hothers : firstFailure (runEach kind (lanes.map Lane.drive) between).1 with
          | error error =>
            rw [hothers] at h
            cases h
          | ok totals => exact ⟨totals, .inr rfl⟩
      rcases hrest with ⟨totals, hrest⟩
      rw [ih between hrest]

/-- Driving the lanes of a ready converter is orderly. -/
theorem Ready.drives_orderly (h : converter.Ready setting) :
    ∀ process ∈ converter.lanes.map Lane.drive,
      process.Orderly (fun _ => True) setting.inputs fun drive => Fails drive.outcome := by
  intro process hprocess
  rcases List.mem_map.mp hprocess with ⟨lane, hlane, rfl⟩
  exact (h.drive_orderly hlane).mono (fun _ _ => trivial) fun _ hreads => hreads

/-- What comes of driving each lane when all of them are driven by turns. -/
def drives (converter : Converter W S) (schedule : List ℕ) : List Lane.Drive :=
  (interleave converter.kind schedule (converter.lanes.map Lane.drive) converter.registry).1

/-- Lanes that are driven by turns end as they may, whatever the schedule. -/
theorem Ready.exists_drives (h : converter.Ready setting) (schedule : List ℕ) :
    ∃ endings calls, RunTo converter.kind setting.contents
        (fun drive : Lane.Drive => Fails drive.outcome) (converter.lanes.map Lane.drive)
        converter.registry endings calls ∧
      converter.drives schedule = endings.map (·.2) ∧
      converter.driveLanes (.parallel schedule) =
        (⟨firstFailure (converter.drives schedule), (converter.drives schedule).map (·.seen)⟩,
          (converter.drives schedule).map (·.lane),
          converter.registry.consumeAll converter.kind calls) := by
  rcases exists_interleave h.kind h.usable h.drives_orderly schedule with
    ⟨endings, calls, hends, hrun⟩
  refine ⟨endings, calls, hends, congrArg Prod.fst hrun, ?_⟩
  unfold driveLanes driveByTurns drives
  dsimp only
  rw [hrun]

/-- Lanes that are driven without a failure give their own samples to the sinks as a merge, in
whatever mode, and come to their own totals and ends. -/
theorem Ready.driveLanes_of_ok (h : converter.Ready setting) {mode : RunMode}
    {summaries : List LaneSummary} (hok : (converter.driveLanes mode).1.outcome = .ok summaries) :
    ∃ calls, IsMerge calls (converter.lanes.map (·.ownSamples setting.contents)) ∧
      converter.registry.Takes converter.kind calls ∧
      converter.lanes.map (·.ownOutcome setting.contents) = summaries.map .ok ∧
      converter.driveLanes mode =
        (⟨.ok summaries, converter.lanes.map (·.ownSights setting.contents)⟩,
          converter.lanes.map (·.ownEnd setting.contents),
          converter.registry.consumeAll converter.kind calls) := by
  obtain ⟨schedule, hturns⟩ : ∃ schedule, converter.driveLanes mode =
      converter.driveLanes (.parallel schedule) := by
    cases mode with
    | sequential => exact ⟨[], driveInOrder_eq converter.kind _ _ (.inl hok)⟩
    | parallel schedule => exact ⟨schedule, rfl⟩
  rcases h.exists_drives schedule with ⟨endings, calls, hends, hdrives, hdriven⟩
  rw [hturns, hdriven] at hok ⊢
  have houtcomes := firstFailure_eq_ok.mp hok
  have hsuccess : ∀ drive ∈ converter.drives schedule, ¬Fails drive.outcome := by
    intro drive hdrive
    have hmem : drive.outcome ∈ (converter.drives schedule).map (·.outcome) :=
      List.mem_map_of_mem hdrive
    rw [houtcomes] at hmem
    rcases List.mem_map.mp hmem with ⟨summary, -, hsummary⟩
    rw [← hsummary]
    exact not_fails_ok summary
  rw [hdrives, List.forall_mem_map] at hsuccess
  have hown := hends.eq_own hsuccess
  have hmerge := hends.merge
  have htakes := hends.takes hsuccess
  rw [hdrives] at houtcomes hok ⊢
  subst hown
  simp only [List.map_map, Function.comp_def] at hmerge houtcomes hok ⊢
  exact ⟨calls, hmerge, htakes, houtcomes, by rw [hok]; rfl⟩

/-- If the lanes' own samples are taken, lane by lane, and the lanes come to totals of their own,
they do so when they are driven one after the other. -/
theorem Ready.driveLanes_sequential (h : converter.Ready setting)
    (htakes : converter.registry.Takes converter.kind
      (converter.lanes.map (·.ownSamples setting.contents)).flatten)
    {summaries : List LaneSummary}
    (houtcomes : converter.lanes.map (·.ownOutcome setting.contents) = summaries.map .ok) :
    (converter.driveLanes .sequential).1.outcome = .ok summaries := by
  have hparts : (converter.lanes.map Lane.drive).map (·.ownDeliveries setting.contents) =
      converter.lanes.map (·.ownSamples setting.contents) := by
    rw [List.map_map]
    rfl
  have hrun := runEach_of_takes h.kind h.usable h.drives_orderly (by rwa [hparts])
  have hturns : (driveByTurns converter.kind [] converter.lanes
      converter.registry).1.outcome = .ok summaries := by
    unfold driveByTurns interleave
    rw [hrun]
    refine firstFailure_eq_ok.mpr ?_
    rw [← houtcomes, List.map_map, List.map_map]
    rfl
  rw [driveLanes, driveInOrder_eq converter.kind _ _ (.inr hturns)]
  exact hturns

/-- Finished lanes deliver nothing more, come to their totals, and show themselves once. -/
theorem driveLanes_of_finished (hfinished : ∀ lane ∈ converter.lanes, lane.finished = true)
    (mode : RunMode) :
    converter.driveLanes mode =
      (⟨.ok (converter.lanes.map (·.summary)),
          converter.lanes.map fun lane => [⟨lane.position, true⟩]⟩,
        converter.lanes, converter.registry) := by
  have hdone : converter.lanes.map Lane.drive =
      (converter.lanes.map fun lane =>
        (⟨.ok lane.summary, [⟨lane.position, true⟩], lane⟩ : Lane.Drive)).map .done := by
    rw [List.map_map]
    exact List.map_congr_left fun lane hlane => Lane.drive_of_finished (hfinished lane hlane)
  have hturns (schedule : List ℕ) :
      driveByTurns converter.kind schedule converter.lanes converter.registry =
        (⟨.ok (converter.lanes.map (·.summary)),
            converter.lanes.map fun lane => [⟨lane.position, true⟩]⟩,
          converter.lanes, converter.registry) := by
    have houtcome : firstFailure (converter.lanes.map fun lane =>
        (⟨.ok lane.summary, [⟨lane.position, true⟩], lane⟩ : Lane.Drive)) =
          .ok (converter.lanes.map (·.summary)) := by
      rw [firstFailure_eq_ok, List.map_map, List.map_map]
      rfl
    unfold driveByTurns
    rw [hdone, interleave_done]
    dsimp only
    rw [houtcome]
    simp only [List.map_map, Function.comp_def, List.map_id']
  cases mode with
  | sequential =>
    have hok : (driveByTurns converter.kind [] converter.lanes
        converter.registry).1.outcome = .ok (converter.lanes.map (·.summary)) := by rw [hturns]
    exact (driveInOrder_eq converter.kind _ _ (.inr hok)).trans (hturns [])
  | parallel schedule => exact hturns schedule

end Drive

section Streams

/-- A sample of a lane goes to the sink of its stream, which is one of the lane's. -/
theorem Ready.sink_of_mem_ownSamples (h : converter.Ready setting) {lane : Lane}
    (hlane : lane ∈ converter.lanes) {delivery : Delivery}
    (hdelivery : delivery ∈ lane.ownSamples setting.contents) :
    delivery.record.id ∈ lane.streams ∧
      converter.registry.sinks.find? delivery.record.id = some delivery.sink := by
  have hfeeds := (h.drive_orderly hlane).owns_ownDeliveries setting.contents delivery hdelivery
  rcases Lane.feeds_iff.mp hfeeds with ⟨binding, hbinding, hsink, hrecord⟩
  rw [hrecord, hsink]
  exact ⟨List.mem_map_of_mem hbinding,
    (h.consistent.lanes lane hlane).bindings binding hbinding⟩

/-- The samples of a lane that go to the sink of a stream are those for the stream. -/
theorem Ready.deliveriesTo_ownSamples (h : converter.Ready setting) {lane : Lane}
    (hlane : lane ∈ converter.lanes) {stream : String} {number : ℕ}
    (hnumber : converter.registry.sinks.find? stream = some number) :
    deliveriesTo number (lane.ownSamples setting.contents) =
      lane.ownSamplesOf setting.contents stream := by
  refine List.filter_congr fun delivery hdelivery => ?_
  have hsink := (h.sink_of_mem_ownSamples hlane hdelivery).2
  rw [Bool.eq_iff_iff, beq_iff_eq, beq_iff_eq]
  constructor
  · intro hsame
    rw [hsame] at hsink
    exact h.consistent.registry.stream_eq hsink hnumber
  · intro hsame
    rw [hsame, hnumber] at hsink
    exact (Option.some_inj.mp hsink).symm

/-- In a merge of the lanes' own samples the sink of a stream is given a merge of those for the
stream. -/
theorem Ready.merge_ownSamplesOf (h : converter.Ready setting) {calls : List Delivery}
    (hmerge : IsMerge calls (converter.lanes.map (·.ownSamples setting.contents)))
    {stream : String} {number : ℕ}
    (hnumber : converter.registry.sinks.find? stream = some number) :
    IsMerge (deliveriesTo number calls)
      (converter.lanes.map (·.ownSamplesOf setting.contents stream)) := by
  have hparts : (converter.lanes.map (·.ownSamples setting.contents)).map (deliveriesTo number) =
      converter.lanes.map (·.ownSamplesOf setting.contents stream) := by
    rw [List.map_map]
    exact List.map_congr_left fun lane hlane => h.deliveriesTo_ownSamples hlane hnumber
  rw [← hparts]
  exact hmerge.filter _

/-- If no two lanes have a stream in common, there is one way only to merge what the lanes give to
one sink. -/
theorem Ready.deliveriesTo_eq (h : converter.Ready setting) (hdisjoint : converter.StreamsDisjoint)
    {calls others : List Delivery}
    (hcalls : IsMerge calls (converter.lanes.map (·.ownSamples setting.contents)))
    (hothers : IsMerge others (converter.lanes.map (·.ownSamples setting.contents)))
    (number : ℕ) : deliveriesTo number calls = deliveriesTo number others := by
  refine (hcalls.filter _).unique (hothers.filter _) ?_
  rw [List.pairwise_map, List.pairwise_map]
  refine hdisjoint.imp_of_mem fun {lane other} hlane hother hapart => ?_
  simp only [List.filter_eq_nil_iff, beq_iff_eq]
  by_contra hboth
  push Not at hboth
  rcases hboth with ⟨⟨first, hfirst, hone⟩, second, hsecond, htwo⟩
  have hlaneSink := h.sink_of_mem_ownSamples hlane hfirst
  have hotherSink := h.sink_of_mem_ownSamples hother hsecond
  rw [hone] at hlaneSink
  rw [htwo] at hotherSink
  have hsame := h.consistent.registry.stream_eq hlaneSink.2 hotherSink.2
  exact hapart _ hlaneSink.1 (hsame ▸ hotherSink.1)

end Streams

section Run

/-- A run that succeeds drives the lanes without a failure, and finishes the sinks. -/
theorem runWith_ok (hopen : converter.isOpen = true) {mode : RunMode}
    {summaries : List LaneSummary} (h : (converter.runWith mode).1.outcome = .ok summaries) :
    (converter.driveLanes mode).1.outcome = .ok summaries ∧
      ((converter.driveLanes mode).2.2.finishAll converter.kind).1 = .ok () := by
  cases hdriven : (converter.driveLanes mode).1.outcome with
  | error error =>
    rw [runWith_of_error hopen mode hdriven, hdriven] at h
    cases h
  | ok totals =>
    rw [runWith_of_ok hopen mode hdriven] at h
    cases hfinish : ((converter.driveLanes mode).2.2.finishAll converter.kind).1 with
    | error error =>
      rw [hfinish] at h
      cases h
    | ok =>
      rw [hfinish] at h
      exact ⟨h, rfl⟩

/-- A run that succeeds gives the lanes' own samples to the sinks as a merge, in whatever mode,
comes to the lanes' own totals and ends, and finishes the sinks. -/
theorem Ready.runWith_eq (h : converter.Ready setting) {mode : RunMode}
    {summaries : List LaneSummary} (hok : (converter.runWith mode).1.outcome = .ok summaries) :
    ∃ calls, IsMerge calls (converter.lanes.map (·.ownSamples setting.contents)) ∧
      converter.registry.Takes converter.kind calls ∧
      converter.lanes.map (·.ownOutcome setting.contents) = summaries.map .ok ∧
      ((converter.registry.consumeAll converter.kind calls).finishAll converter.kind).1 = .ok () ∧
      converter.runWith mode =
        (⟨.ok summaries, converter.lanes.map (·.ownSights setting.contents)⟩,
          { converter with
            lanes := converter.lanes.map (·.ownEnd setting.contents)
            registry := ((converter.registry.consumeAll converter.kind calls).finishAll
              converter.kind).2 }) := by
  rcases runWith_ok h.isOpen hok with ⟨hdriven, hfinish⟩
  have hrun := runWith_of_ok h.isOpen mode hdriven
  rcases h.driveLanes_of_ok hdriven with ⟨calls, hmerge, htakes, houtcomes, hlanes⟩
  rw [hlanes] at hfinish
  rw [hlanes] at hrun
  dsimp only at hfinish hrun
  rw [hfinish] at hrun
  exact ⟨calls, hmerge, htakes, houtcomes, hfinish, hrun⟩

/-- The sink of a stream keeps, after samples were given to sinks and all of them finished, what its
own samples and then finishing make it keep. -/
theorem Ready.made_finishAll (h : converter.Ready setting) {calls : List Delivery}
    (hfinish : ((converter.registry.consumeAll converter.kind calls).finishAll
      converter.kind).1 = .ok ()) {stream : String} {number : ℕ}
    (hnumber : converter.registry.sinks.find? stream = some number) :
    ((converter.registry.consumeAll converter.kind calls).finishAll
        converter.kind).2.made[number]? =
      (converter.registry.made[number]?).map fun sink =>
        { sink with
          state := (setting.finish (setting.feed sink.state (deliveriesTo number calls))).2 } := by
  have hsame : converter.registry.SameStreams
      (converter.registry.consumeAll converter.kind calls) :=
    Registry.consumeAll_sameStreams calls
  have hconsistent := hsame.consistent h.consistent.registry
  have hmember : number ∈
      (converter.registry.consumeAll converter.kind calls).sinks.entries.map (·.2) := by
    rw [hsame.sinks]
    exact List.mem_map_of_mem (Catalog.mem_of_find? hnumber)
  have hmade := Registry.made_finishEntries h.kind
    (Registry.consumeAll_usable h.kind h.usable calls) hconsistent.numbers_nodup hfinish number
  unfold Registry.finishAll
  rw [hmade, Registry.made_consumeAll h.kind h.usable, Option.map_map]
  simp only [Function.comp_def, if_pos hmember]

/-- The untouched lanes, run one after the other, give the sinks the samples `alone`. This has the
effect of another run, which gave them the samples `calls`, came to totals and left a registry. -/
structure RunsAlike (converter : Converter W S) (summaries : List LaneSummary)
    (left : Registry W S) (calls alone : List Delivery) : Prop where
  /-- Every sink is given the same samples. -/
  samples : ∀ number, deliveriesTo number calls = deliveriesTo number alone
  /-- The totals are the same. -/
  outcome : (converter.runWith .sequential).1.outcome = .ok summaries
  /-- Every sink is finished after the last sample. -/
  registry : (converter.runWith .sequential).2.registry =
    ((converter.registry.consumeAll converter.kind alone).finishAll converter.kind).2
  /-- Every sink keeps the same. -/
  made : (converter.runWith .sequential).2.registry.made = left.made

/-- If no two lanes have a stream in common and some merge of the lanes' own samples is taken, after
which all sinks can be finished, the lanes that are run one after the other give every sink the same
samples to the same effect. -/
theorem Ready.runWith_sequential (h : converter.Ready setting)
    (hdisjoint : converter.StreamsDisjoint) {calls : List Delivery}
    (hmerge : IsMerge calls (converter.lanes.map (·.ownSamples setting.contents)))
    (htakes : converter.registry.Takes converter.kind calls) {summaries : List LaneSummary}
    (houtcomes : converter.lanes.map (·.ownOutcome setting.contents) = summaries.map .ok)
    (hfinish : ((converter.registry.consumeAll converter.kind calls).finishAll
      converter.kind).1 = .ok ()) :
    ∃ alone, converter.RunsAlike summaries
      ((converter.registry.consumeAll converter.kind calls).finishAll converter.kind).2
      calls alone := by
  have hsame := h.deliveriesTo_eq hdisjoint hmerge (IsMerge.flatten _)
  have htaken := (Registry.takes_congr h.kind h.usable hsame).mp htakes
  -- The sinks take the samples lane by lane as well, so that the lanes alone do not fail either.
  have hdriven := h.driveLanes_sequential htaken houtcomes
  rcases h.driveLanes_of_ok hdriven with ⟨alone, halone, -, -, hlanes⟩
  have hcalls := h.deliveriesTo_eq hdisjoint hmerge halone
  have hends := Registry.finishAll_consumeAll_congr h.kind h.usable hcalls
  have hrun := runWith_of_ok h.isOpen .sequential hdriven
  rw [hlanes] at hrun
  dsimp only at hrun
  rw [← hends.1, hfinish] at hrun
  exact ⟨alone, {
    samples := hcalls
    outcome := by rw [hrun]; rfl
    registry := by rw [hrun]
    made := by rw [hrun, hends.2] }⟩

/-- A run of finished lanes does no more than finish the sinks. -/
theorem runWith_of_finished (hopen : converter.isOpen = true)
    (hfinished : ∀ lane ∈ converter.lanes, lane.finished = true) (mode : RunMode) :
    converter.runWith mode =
      (⟨(converter.registry.finishAll converter.kind).1.map fun _ =>
            converter.lanes.map (·.summary),
          converter.lanes.map fun lane => [⟨lane.position, true⟩]⟩,
        { converter with registry := (converter.registry.finishAll converter.kind).2 }) := by
  have hdriven := driveLanes_of_finished hfinished mode
  rw [runWith_of_ok hopen mode (by rw [hdriven]), hdriven]

/-- A further run gives no sample to a sink, and finishes the sinks again. -/
theorem Ready.runWith_further (h : converter.Ready setting) {mode : RunMode}
    {summaries : List LaneSummary} (hok : (converter.runWith mode).1.outcome = .ok summaries)
    (further : RunMode) :
    (converter.runWith mode).2.runWith further =
      (⟨((converter.runWith mode).2.registry.finishAll converter.kind).1.map fun _ => summaries,
          (converter.runWith mode).2.lanes.map fun lane => [⟨lane.position, true⟩]⟩,
        { (converter.runWith mode).2 with
          registry := ((converter.runWith mode).2.registry.finishAll converter.kind).2 }) := by
  rcases h.runWith_eq hok with ⟨calls, -, -, houtcomes, -, hrun⟩
  rcases Lane.finished_of_ownOutcomes (fun lane hlane => h.bounded hlane) houtcomes with
    ⟨hfinished, htotals⟩
  have hopen : (converter.runWith mode).2.isOpen = true := by rw [hrun, h.isOpen]
  have hkind : (converter.runWith mode).2.kind = converter.kind := by rw [hrun]
  have hlanes : (converter.runWith mode).2.lanes =
      converter.lanes.map (·.ownEnd setting.contents) := by rw [hrun]
  rw [← hlanes] at hfinished htotals
  rw [runWith_of_finished hopen hfinished, htotals, ← hkind]

/-- How a run ends, in some mode, of lanes that were stepped by hand before, where no step failed
and the run did not, neither for a lane nor for a sink. By hand and by the run together the sinks
were given the samples `calls`. -/
structure EndsMerged (setting : Setting W S) (converter stepped : Converter W S) (mode : RunMode)
    (summaries : List LaneSummary) (calls : List Delivery) : Prop where
  /-- The samples are a merge of the lanes' own samples. -/
  merge : IsMerge calls (converter.lanes.map (·.ownSamples setting.contents))
  /-- They were all taken. -/
  taken : converter.registry.Takes converter.kind calls
  /-- Then every sink was finished. -/
  registry : (stepped.runWith mode).2.registry =
    ((converter.registry.consumeAll converter.kind calls).finishAll converter.kind).2
  /-- The sink of a stream was given a merge of the lanes' own samples for that stream. -/
  streams : ∀ stream number, converter.registry.sinks.find? stream = some number →
    IsMerge (deliveriesTo number calls)
      (converter.lanes.map (·.ownSamplesOf setting.contents stream))
  /-- It keeps what these and then finishing make it keep. -/
  sinks : ∀ stream number, converter.registry.sinks.find? stream = some number →
    (stepped.runWith mode).2.registry.made[number]? =
      (converter.registry.made[number]?).map fun sink =>
        { sink with
          state := (setting.finish (setting.feed sink.state (deliveriesTo number calls))).2 }
  /-- If no two lanes have a stream in common, the untouched lanes that are run one after the other
  do the same. -/
  sequential : converter.StreamsDisjoint →
    ∃ alone, converter.RunsAlike summaries (stepped.runWith mode).2.registry calls alone
  /-- The totals are the lanes' own, in the order of the lanes. -/
  totals : converter.lanes.map (·.ownOutcome setting.contents) = summaries.map .ok
  /-- An observer of the run sees of every lane what the lane shows on its own. -/
  seen : (stepped.runWith mode).1.seen = stepped.lanes.map (·.ownSights setting.contents)
  /-- A further run in any mode gives no sample to a sink: it finishes the sinks again and, if that
  succeeds, has the same totals. -/
  further : ∀ next, (stepped.runWith mode).2.runWith next =
    (⟨((stepped.runWith mode).2.registry.finishAll converter.kind).1.map fun _ => summaries,
        (stepped.runWith mode).2.lanes.map fun lane => [⟨lane.position, true⟩]⟩,
      { (stepped.runWith mode).2 with
        registry := ((stepped.runWith mode).2.registry.finishAll converter.kind).2 })

/-- Take an open converter as its operations left it, whose sinks are isolated and whose lanes read
files that no sink changes. Step its lanes by hand in any order, and then run them one after the
other or by turns as any schedule says. If no step fails and the run does not, neither for a lane
nor for a sink, the samples and the totals are the lanes' own, whatever the schedule. -/
theorem runWith_schedule_independent
    (hreachable : Reachable converter.kind converter.opener converter)
    (hopen : converter.isOpen = true) (hkind : converter.kind.Isolated setting)
    (hworld : setting.usable converter.registry.world)
    (hinputs : ∀ lane ∈ converter.lanes, ∀ location, lane.source.Reads location →
      setting.inputs location)
    (hsteps : Stepped converter stepped) {mode : RunMode} {summaries : List LaneSummary}
    (hrun : (stepped.runWith mode).1.outcome = .ok summaries) :
    ∃ calls, EndsMerged setting converter stepped mode summaries calls := by
  have h : converter.Ready setting :=
    ⟨hopen, hreachable.consistent, hkind, hworld, hinputs⟩
  rcases h.of_stepped hsteps with ⟨hready, front, hfront⟩
  rcases hready.runWith_eq hrun with ⟨rest, hrest, htakes, houtcomes, hfinish, hreport⟩
  have hmerge := hfront.merge rest hrest
  have hall := hfront.outcomes.symm.trans houtcomes
  rw [hfront.registry, hfront.kind] at htakes
  rw [hfront.registry, hfront.kind, ← Registry.consumeAll_append] at hfinish hreport
  have htaken := (Registry.takes_append front rest).mpr ⟨hfront.takes, htakes⟩
  refine ⟨front ++ rest, {
    merge := hmerge
    taken := htaken
    registry := by rw [hreport]
    streams := fun stream number hnumber => h.merge_ownSamplesOf hmerge hnumber
    sinks := fun stream number hnumber => ?_
    sequential := fun hdisjoint => ?_
    totals := hall
    seen := by rw [hreport]
    further := fun next => ?_ }⟩
  · rw [hreport]
    exact h.made_finishAll hfinish hnumber
  · rw [hreport]
    exact h.runWith_sequential hdisjoint hmerge htaken hall hfinish
  · have hfurther := hready.runWith_further hrun next
    rwa [hfront.kind] at hfurther

end Run

end Converter

/-- A lane of one stream, with one sample and a footer in each cycle of two bytes. -/
def byteLane (lane stream : String) : LaneDecl where
  id := lane
  systems := ["S"]
  blocks := [{
    sizeFooter := 1
    chunks := [{ lumps := [{ streams := [{ id := stream, bands := ["L"] }] }] }] }]

/-- Two such lanes, each with a file and a stream of its own. -/
def pairRecording : Descriptor where
  systems := [{ id := "S" }]
  bands := [{ id := "L" }]
  files := [{ url := "p", lane := "P" }, { url := "q", lane := "Q" }]
  lanes := [byteLane "P" "A", byteLane "Q" "B"]

/-- A recording opened with memory sinks, over a file `p` and others of given bytes. -/
def openPair (recording : Descriptor) (first others : List UInt8) : Converter Unit MemorySink :=
  ((Converter.new MemorySink.kind () fun path =>
    .ok (.ofBytes (if path.text = "p" then first else others))).openDescriptor
      recording ⟨""⟩).2

/-- The second lane is stepped, and then both are run by turns: the sinks end as if the lanes were
run one after the other. -/
theorem Converter.runWith_schedule_independent_of_pairRecording :
    ∃ stepped, (openPair pairRecording [1, 2, 3, 4] [5, 6, 7, 8]).Stepped stepped ∧
      (stepped.runWith (.parallel [1, 0, 0])).1.outcome =
        .ok [⟨"P", 2, 4, 2⟩, ⟨"Q", 2, 4, 2⟩] ∧
      ((openPair pairRecording [1, 2, 3, 4] [5, 6, 7, 8]).runWith .sequential).2.registry.made =
        (stepped.runWith (.parallel [1, 0, 0])).2.registry.made := by
  have hstep : ((openPair pairRecording [1, 2, 3, 4] [5, 6, 7, 8]).stepLane 1).1 =
      some (.ok (.cycle 2 1)) := by with_unfolding_all rfl
  have hsteps : (openPair pairRecording [1, 2, 3, 4] [5, 6, 7, 8]).Stepped
      ((openPair pairRecording [1, 2, 3, 4] [5, 6, 7, 8]).stepLane 1).2 := .step 1 hstep (.refl _)
  have hopen : (openPair pairRecording [1, 2, 3, 4] [5, 6, 7, 8]).isOpen = true := by
    with_unfolding_all rfl
  have hrun : (((openPair pairRecording [1, 2, 3, 4] [5, 6, 7, 8]).stepLane 1).2.runWith
      (.parallel [1, 0, 0])).1.outcome = .ok [⟨"P", 2, 4, 2⟩, ⟨"Q", 2, 4, 2⟩] := by
    with_unfolding_all rfl
  have hdisjoint : (openPair pairRecording [1, 2, 3, 4] [5, 6, 7, 8]).StreamsDisjoint := by
    decide +kernel
  rcases runWith_schedule_independent (.openDescriptor (.new ()) pairRecording ⟨""⟩) hopen
    MemorySink.kind_isolated trivial (fun _ _ _ _ => trivial) hsteps hrun with ⟨calls, hends⟩
  rcases hends.sequential hdisjoint with ⟨alone, halone⟩
  exact ⟨_, hsteps, hrun, halone.made⟩

end SampleDemux
