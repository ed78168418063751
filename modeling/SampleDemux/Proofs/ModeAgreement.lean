import SampleDemux.Proofs.LaneFailure
import SampleDemux.Proofs.Panics
import SampleDemux.Sink.Trace

/-!
# Both run modes report the same failure

If no two lanes have a stream in common, every lane ends in a run by turns as it does when no other
lane is driven, whatever the schedule. One after the other, the lanes up to the first failure end in
the same way, and the lanes behind it are not touched. So both modes report the failure of the first
lane that fails, and a panic of a sink is reported with the lane whose sample it was given.
-/

namespace SampleDemux

open Process

/-- Trace sinks with given faults fail after numbers of samples of their own, and no file has a
byte. -/
def TraceSink.setting (faults : FaultPlan) : Setting TraceLog TraceSink where
  consume sink _ _ :=
    if limited faults.panics sink then (.panicked, sink)
    else if limited faults.consume sink then
      (.refused (.ofMessage "write failed: disk full"), sink)
    else (.accepted, { sink with accepted := sink.accepted + 1 })
  finish sink :=
    if sink.stream ∈ faults.finish then (.error (.ofMessage "flush failed"), sink)
    else (.ok (), sink)
  contents _ := []
  inputs _ := True
  usable _ := True

/-- Trace sinks are isolated: none of them reads the log. -/
theorem TraceSink.kind_isolated (faults : FaultPlan) :
    (kind faults).Isolated (setting faults) where
  consume sink sample record log _ := by
    unfold kind setting
    dsimp only
    split
    · exact ⟨rfl, rfl⟩
    · split <;> exact ⟨rfl, rfl⟩
  consume_usable _ _ _ _ _ := trivial
  finish sink log _ := by
    unfold kind setting
    dsimp only
    split <;> exact ⟨rfl, rfl⟩
  finish_usable _ _ _ := trivial
  look part _ _ _ := by simp [setting, kind, FilePart.cut]
  contents_le _ _ := Nat.zero_le _

namespace Converter

variable {W S : Type} {converter : Converter W S} {setting : Setting W S}

/-- What comes of driving a lane when no other one is driven. -/
def driveAlone (converter : Converter W S) (lane : Lane) : Lane.Drive :=
  (lane.drive.run converter.kind converter.registry).1

/-- A sink panics when a lane is driven and no other one is. -/
def PanicsAlone (converter : Converter W S) (lane : Lane) : Prop :=
  lane.drive.panics converter.kind converter.registry = true

/-- A lane that is driven alone reports a panic with its own name if and only if a sink panics. -/
theorem driveAlone_panicked_iff (lane : Lane) :
    (converter.driveAlone lane).outcome = .error (.workerPanicked lane.id) ↔
      converter.PanicsAlone lane :=
  lane.panicked_drive_iff converter.kind converter.registry

/-- A lane that does not fail alone is finished then, with its totals. -/
theorem Ready.finished_of_driveAlone (h : converter.Ready setting) {lane : Lane}
    (hlane : lane ∈ converter.lanes) {summary : LaneSummary}
    (hok : (converter.driveAlone lane).outcome = .ok summary) :
    (converter.driveAlone lane).lane.finished = true ∧
      (converter.driveAlone lane).lane.summary = summary := by
  obtain ⟨ending, hending⟩ := exists_runsTo h.kind h.usable (h.drive_orderly hlane)
  have hdrive : converter.driveAlone lane = ending.2 := congrArg Prod.fst hending.run_eq
  rw [hdrive] at hok ⊢
  have hsuccess : ¬Fails ending.2.outcome := by
    rw [hok]
    exact not_fails_ok summary
  have hown := hending.ends.eq_own hsuccess
  rw [hown] at hok ⊢
  exact Lane.finished_of_drive (h.bounded hlane) hok

section Separate

/-- A sink is one of the lane at a place. -/
def OwnsSink (converter : Converter W S) (place number : ℕ) : Prop :=
  ∃ lane, converter.lanes[place]? = some lane ∧ ∃ binding ∈ lane.bindings, binding.sink = number

/-- The sink of a stream is one of a lane if and only if the lane has the stream. -/
theorem Ready.ownsSink_iff (h : converter.Ready setting) {place : ℕ} {lane : Lane}
    (hplace : converter.lanes[place]? = some lane) {stream : String} {number : ℕ}
    (hnumber : converter.registry.sinks.find? stream = some number) :
    converter.OwnsSink place number ↔ stream ∈ lane.streams := by
  have hattached := h.consistent.lanes lane (List.mem_of_getElem? hplace)
  unfold OwnsSink Lane.streams
  rw [List.mem_map]
  constructor
  · rintro ⟨other, hother, binding, hbinding, rfl⟩
    obtain rfl : lane = other := Option.some_inj.mp (hplace.symm.trans hother)
    exact ⟨binding, hbinding,
      h.consistent.registry.stream_eq (hattached.bindings binding hbinding) hnumber⟩
  · rintro ⟨binding, hbinding, rfl⟩
    have hsame := (hattached.bindings binding hbinding).symm.trans hnumber
    exact ⟨lane, hplace, binding, hbinding, Option.some_inj.mp hsame⟩

/-- Lanes without a stream in common are separate. -/
theorem Ready.separate (h : converter.Ready setting) (hdisjoint : converter.StreamsDisjoint) :
    Separate setting (fun drive : Lane.Drive => Fails drive.outcome) converter.OwnsSink
      (converter.lanes.map Lane.drive) where
  orderly := by
    intro place process hprocess
    rw [List.getElem?_map, Option.map_eq_some_iff] at hprocess
    obtain ⟨lane, hplace, rfl⟩ := hprocess
    refine (h.drive_orderly (List.mem_of_getElem? hplace)).mono (fun delivery hfeeds => ?_)
      fun _ hreads => hreads
    obtain ⟨binding, hbinding, hsink, -⟩ := Lane.feeds_iff.mp hfeeds
    exact ⟨lane, hplace, binding, hbinding, hsink.symm⟩
  apart := by
    rintro place elsewhere number ⟨lane, hplace, binding, hbinding, rfl⟩ hother
    obtain ⟨other, helsewhere, -⟩ := id hother
    have hnumber :=
      (h.consistent.lanes lane (List.mem_of_getElem? hplace)).bindings binding hbinding
    have hlane : binding.record.id ∈ lane.streams := List.mem_map_of_mem hbinding
    have hshared := (h.ownsSink_iff helsewhere hnumber).mp hother
    obtain ⟨hbound, rfl⟩ := List.getElem?_eq_some_iff.mp hplace
    obtain ⟨hboundOther, rfl⟩ := List.getElem?_eq_some_iff.mp helsewhere
    have hpairs := List.pairwise_iff_getElem.mp hdisjoint
    obtain hlt | hsame | hlt := Nat.lt_trichotomy place elsewhere
    · exact absurd hshared (hpairs place elsewhere hbound hboundOther hlt _ hlane)
    · exact hsame
    · exact absurd hlane (hpairs elsewhere place hboundOther hbound hlt _ hshared)

/-- Lanes that are driven by turns end as they do alone, whatever the schedule. -/
theorem Ready.endAlone (h : converter.Ready setting) (hdisjoint : converter.StreamsDisjoint)
    (schedule : List ℕ) :
    EndAlone converter.kind converter.OwnsSink (converter.lanes.map Lane.drive) converter.registry
      (interleave converter.kind schedule (converter.lanes.map Lane.drive) converter.registry) :=
  (h.separate hdisjoint).interleave h.kind h.usable schedule

/-- What comes of each lane in a run by turns is what comes of it alone. -/
theorem Ready.drives_eq (h : converter.Ready setting) (hdisjoint : converter.StreamsDisjoint)
    (schedule : List ℕ) : converter.drives schedule = converter.lanes.map converter.driveAlone := by
  unfold drives
  rw [(h.endAlone hdisjoint schedule).results, List.map_map]
  rfl

end Separate

section InOrder

variable {kind : SinkKind W S} {alone : Lane → Lane.Drive}

/-- Lanes that are driven one after the other are driven up to the first that fails, which is
reported, and the lanes behind it stay as they are. -/
theorem driveInOrder_of_failure {front : List Lane} {lane : Lane} {registry : Registry W S}
    (hends : (runEach kind ((front ++ [lane]).map Lane.drive) registry).1 =
      (front ++ [lane]).map alone)
    (hfront : ∀ other ∈ front, ¬Fails (alone other).outcome) {error : ConvertError}
    (herror : (alone lane).outcome = .error error) (back : List Lane) :
    driveInOrder kind (front ++ lane :: back) registry =
      (⟨.error error, (front ++ [lane]).map fun other => (alone other).seen⟩,
        ((front ++ [lane]).map fun other => (alone other).lane) ++ back,
        (runEach kind ((front ++ [lane]).map Lane.drive) registry).2) := by
  induction front generalizing registry with
  | nil =>
    simp only [List.nil_append, List.map_cons, List.map_nil, runEach, List.cons.injEq,
      and_true] at hends ⊢
    unfold driveInOrder
    generalize lane.drive.run kind registry = result at hends ⊢
    obtain ⟨⟨outcome, seen, next⟩, after⟩ := result
    dsimp only at hends
    rw [← hends] at herror ⊢
    dsimp only at herror
    subst herror
    rfl
  | cons first front ih =>
    obtain ⟨hfirst, hothers⟩ := List.forall_mem_cons.mp hfront
    simp only [List.cons_append, List.map_cons, runEach, List.cons.injEq] at hends ⊢
    obtain ⟨hdrive, hrest⟩ := hends
    have hnext := ih hrest hothers
    unfold driveInOrder
    generalize first.drive.run kind registry = result at hdrive hnext ⊢
    obtain ⟨⟨outcome, seen, next⟩, between⟩ := result
    dsimp only at hdrive hnext
    rw [← hdrive] at hfirst ⊢
    cases outcome with
    | error cause => exact absurd ⟨cause, rfl⟩ hfirst
    | ok summary =>
      dsimp only
      rw [hnext]
      rfl

/-- The first lane that fails comes to the first drive that fails. -/
theorem FailsFirst.map {lanes front back : List Lane} {lane : Lane} {error : ConvertError}
    (h : FailsFirst (fun lane => (alone lane).outcome) lanes front lane back error) :
    FailsFirst (·.outcome) (lanes.map alone) (front.map alone) (alone lane) (back.map alone)
      error where
  all_eq := by rw [h.all_eq, List.map_append, List.map_cons]
  front := List.forall_mem_map.mpr h.front
  outcome_eq := h.outcome_eq

/-- If no drive failed, there are totals of all drives. -/
theorem exists_totals {drives : List Lane.Drive} (h : ∀ drive ∈ drives, ¬Fails drive.outcome) :
    ∃ summaries, firstFailure drives = .ok summaries := by
  induction drives with
  | nil => exact ⟨[], rfl⟩
  | cons drive drives ih =>
    obtain ⟨hfirst, hrest⟩ := List.forall_mem_cons.mp h
    obtain ⟨summaries, hsummaries⟩ := ih hrest
    unfold firstFailure
    cases houtcome : drive.outcome with
    | error error => exact absurd ⟨error, houtcome⟩ hfirst
    | ok summary => exact ⟨summary :: summaries, by rw [hsummaries]; rfl⟩

end InOrder

section Run

/-- A run leaves the lanes that driving them leaves. -/
theorem lanes_runWith (hopen : converter.isOpen = true) (mode : RunMode) :
    (converter.runWith mode).2.lanes = (converter.driveLanes mode).2.1 := by
  cases houtcome : (converter.driveLanes mode).1.outcome with
  | error error => rw [runWith_of_error hopen mode houtcome]
  | ok summaries => rw [runWith_of_ok hopen mode houtcome]

/-- Runs that drive the lanes to the same outcome, lanes and sinks have the same outcome and leave
the same lanes and sinks. -/
theorem Ready.runWith_congr (h : converter.Ready setting) {mode other : RunMode}
    (hworld : setting.usable (converter.driveLanes mode).2.2.world)
    (hother : setting.usable (converter.driveLanes other).2.2.world)
    (houtcome : (converter.driveLanes mode).1.outcome = (converter.driveLanes other).1.outcome)
    (hlanes : (converter.driveLanes mode).2.1 = (converter.driveLanes other).2.1)
    (hmade : (converter.driveLanes mode).2.2.made = (converter.driveLanes other).2.2.made) :
    (converter.runWith mode).1.outcome = (converter.runWith other).1.outcome ∧
      (converter.runWith mode).2.lanes = (converter.runWith other).2.lanes ∧
      (converter.runWith mode).2.registry.made = (converter.runWith other).2.registry.made := by
  have hsinks : (converter.driveLanes mode).2.2.sinks = (converter.driveLanes other).2.2.sinks :=
    (converter.driveLanes_shape mode).2.sinks.trans (converter.driveLanes_shape other).2.sinks.symm
  cases hdriven : (converter.driveLanes mode).1.outcome with
  | error error =>
    rw [runWith_of_error h.isOpen mode hdriven,
      runWith_of_error h.isOpen other (houtcome.symm.trans hdriven)]
    exact ⟨houtcome, hlanes, hmade⟩
  | ok summaries =>
    have hfinish := Registry.finishEntries_congr h.kind hworld hother hmade
      (converter.driveLanes mode).2.2.sinks.entries
    rw [runWith_of_ok h.isOpen mode hdriven,
      runWith_of_ok h.isOpen other (houtcome.symm.trans hdriven)]
    unfold Registry.finishAll
    rw [← hsinks, hfinish.1, hfinish.2]
    exact ⟨rfl, hlanes, rfl⟩

/-- Runs by turns have the same outcome and leave the same lanes and sinks, whatever their
schedules. -/
theorem Ready.runWith_parallel_congr (h : converter.Ready setting)
    (hdisjoint : converter.StreamsDisjoint) (schedule other : List ℕ) :
    (converter.runWith (.parallel schedule)).1.outcome =
        (converter.runWith (.parallel other)).1.outcome ∧
      (converter.runWith (.parallel schedule)).2.lanes =
        (converter.runWith (.parallel other)).2.lanes ∧
      (converter.runWith (.parallel schedule)).2.registry.made =
        (converter.runWith (.parallel other)).2.registry.made := by
  have husable (turns : List ℕ) :
      setting.usable (converter.driveLanes (.parallel turns)).2.2.world := by
    obtain ⟨_, calls, -, -, hdriven⟩ := h.exists_drives turns
    rw [hdriven]
    exact Registry.consumeAll_usable h.kind h.usable calls
  have hends := (h.endAlone hdisjoint schedule).unique (h.endAlone hdisjoint other)
  have hdrives : converter.drives schedule = converter.drives other := hends.1
  exact h.runWith_congr (husable schedule) (husable other) (congrArg firstFailure hdrives)
    (congrArg (List.map Lane.Drive.lane) hdrives) hends.2

/-- If no lane fails alone, a run one after the other has the same outcome as one by turns and
leaves the same lanes and sinks. -/
theorem Ready.runWith_sequential_congr (h : converter.Ready setting)
    (hdisjoint : converter.StreamsDisjoint)
    (hok : ∀ lane ∈ converter.lanes, ¬Fails (converter.driveAlone lane).outcome)
    (schedule : List ℕ) :
    (converter.runWith .sequential).1.outcome =
        (converter.runWith (.parallel schedule)).1.outcome ∧
      (converter.runWith .sequential).2.lanes =
        (converter.runWith (.parallel schedule)).2.lanes ∧
      (converter.runWith .sequential).2.registry.made =
        (converter.runWith (.parallel schedule)).2.registry.made := by
  have hdrives := h.drives_eq hdisjoint []
  obtain ⟨summaries, hsummaries⟩ : ∃ summaries, firstFailure (converter.drives []) =
      .ok summaries := by
    rw [hdrives]
    exact exists_totals (List.forall_mem_map.mpr hok)
  have hturns : converter.driveLanes .sequential = converter.driveLanes (.parallel []) :=
    driveInOrder_eq converter.kind _ _ (.inr hsummaries)
  have hrun : converter.runWith .sequential = converter.runWith (.parallel []) := by
    rw [runWith_of_open h.isOpen, runWith_of_open h.isOpen, hturns]
  rw [hrun]
  exact h.runWith_parallel_congr hdisjoint [] schedule

/-- Of the lanes of a converter one is the first that fails when no other one is driven. -/
def FirstFailing (converter : Converter W S) (front : List Lane) (lane : Lane) (back : List Lane)
    (error : ConvertError) : Prop :=
  FailsFirst (fun lane => (converter.driveAlone lane).outcome) converter.lanes front lane back error

variable {front back : List Lane} {lane : Lane} {error : ConvertError}

/-- A run by turns reports the failure of the first lane that fails alone. -/
theorem Ready.runWith_parallel_failure (h : converter.Ready setting)
    (hdisjoint : converter.StreamsDisjoint) (hfirst : converter.FirstFailing front lane back error)
    (schedule : List ℕ) :
    (converter.runWith (.parallel schedule)).1.outcome = .error error ∧
      (converter.runWith (.parallel schedule)).2.registry =
        (interleave converter.kind schedule (converter.lanes.map Lane.drive)
          converter.registry).2 := by
  have hdrives := h.drives_eq hdisjoint schedule
  have hreport : firstFailure (converter.drives schedule) = .error error := by
    rw [hdrives]
    exact hfirst.map.firstFailure_eq
  have hdriven : (converter.driveLanes (.parallel schedule)).1.outcome = .error error := hreport
  rw [runWith_of_error h.isOpen _ hdriven]
  exact ⟨hdriven, rfl⟩

/-- A run one after the other reports the failure of the first lane that fails alone. The lanes up
to it end as they do alone, and the lanes behind it are left as they were. -/
theorem Ready.runWith_sequential_failure (h : converter.Ready setting)
    (hdisjoint : converter.StreamsDisjoint)
    (hfirst : converter.FirstFailing front lane back error) :
    (converter.runWith .sequential).1.outcome = .error error ∧
      (converter.runWith .sequential).2.lanes =
        ((front ++ [lane]).map fun other => (converter.driveAlone other).lane) ++ back ∧
      ∃ results, EndAlone converter.kind converter.OwnsSink ((front ++ [lane]).map Lane.drive)
        converter.registry (results, (converter.runWith .sequential).2.registry) := by
  have hseparate := h.separate hdisjoint
  rw [hfirst.all_eq, List.append_cons, List.map_append] at hseparate
  have hends := hseparate.take.runEach h.kind h.usable
  have hresults := hends.results
  rw [List.map_map] at hresults
  have hdriven := driveInOrder_of_failure hresults hfirst.front hfirst.outcome_eq back
  rw [← hfirst.all_eq] at hdriven
  have hfailure : (converter.driveLanes .sequential).1.outcome = .error error := by
    rw [driveLanes, hdriven]
  rw [runWith_of_error h.isOpen _ hfailure, driveLanes, hdriven]
  exact ⟨rfl, rfl, _, hends⟩

/-- The sink of a stream is one of a lane behind others if and only if such a lane has the
stream. -/
theorem Ready.exists_ownsSink_iff (h : converter.Ready setting) {first others : List Lane}
    (hlanes : converter.lanes = first ++ others) {stream : String} {number : ℕ}
    (hnumber : converter.registry.sinks.find? stream = some number) :
    (∃ place ≥ first.length, converter.OwnsSink place number) ↔
      ∃ other ∈ others, stream ∈ other.streams := by
  constructor
  · rintro ⟨place, hbehind, howns⟩
    obtain ⟨other, hplace, -⟩ := id howns
    have hother := hplace
    rw [hlanes, List.getElem?_append_right hbehind] at hother
    exact ⟨other, List.mem_of_getElem? hother, (h.ownsSink_iff hplace hnumber).mp howns⟩
  · rintro ⟨other, hother, hstream⟩
    obtain ⟨place, hplace⟩ := List.getElem?_of_mem hother
    have hat : converter.lanes[first.length + place]? = some other := by
      rw [hlanes, List.getElem?_append_right (Nat.le_add_right ..), Nat.add_sub_cancel_left]
      exact hplace
    exact ⟨_, Nat.le_add_right .., (h.ownsSink_iff hat hnumber).mpr hstream⟩

/-- In a run by turns every lane ends as it does alone. -/
theorem Ready.lanes_runWith_parallel (h : converter.Ready setting)
    (hdisjoint : converter.StreamsDisjoint) (schedule : List ℕ) :
    (converter.runWith (.parallel schedule)).2.lanes =
      converter.lanes.map fun lane => (converter.driveAlone lane).lane := by
  have hdriven : (converter.driveLanes (.parallel schedule)).2.1 =
      (converter.drives schedule).map (·.lane) := rfl
  rw [lanes_runWith h.isOpen, hdriven, h.drives_eq hdisjoint schedule, List.map_map]
  rfl

/-- When a lane fails, the sinks of the lanes behind it are as they were after a run one after the
other, and all others as after a run by turns. -/
theorem Ready.made_of_failure (h : converter.Ready setting) (hdisjoint : converter.StreamsDisjoint)
    (hfirst : converter.FirstFailing front lane back error) (schedule : List ℕ)
    {stream : String} {number : ℕ}
    (hnumber : converter.registry.sinks.find? stream = some number) :
    ((∃ other ∈ back, stream ∈ other.streams) →
        (converter.runWith .sequential).2.registry.made[number]? =
          converter.registry.made[number]?) ∧
      ((∀ other ∈ back, stream ∉ other.streams) →
        (converter.runWith .sequential).2.registry.made[number]? =
          (converter.runWith (.parallel schedule)).2.registry.made[number]?) := by
  obtain ⟨-, -, results, hends⟩ := h.runWith_sequential_failure hdisjoint hfirst
  have hregistry := (h.runWith_parallel_failure hdisjoint hfirst schedule).2
  have hseparate := h.separate hdisjoint
  have hothers := h.endAlone hdisjoint schedule
  have hsplit : converter.lanes = (front ++ [lane]) ++ back :=
    hfirst.all_eq.trans (List.append_cons ..)
  have howns := h.exists_ownsSink_iff hsplit hnumber
  rw [hsplit, List.map_append] at hseparate hothers hregistry
  obtain ⟨hkept, hsame⟩ := hseparate.agreeOn_front hends hothers
  rw [List.length_map] at hkept hsame
  constructor
  · intro hstream
    exact hkept number (howns.mpr hstream)
  · intro hnone
    rw [hregistry]
    refine hsame number fun place hbehind hown => ?_
    obtain ⟨other, hother, hstream⟩ := howns.mp ⟨place, hbehind, hown⟩
    exact hnone other hother hstream

/-- How a lane ends when no other one is driven. -/
structure EndsAlone (converter : Converter W S) (lane : Lane) : Prop where
  /-- If it does not fail, it is finished with its totals. -/
  finished : ∀ summary, (converter.driveAlone lane).outcome = .ok summary →
    (converter.driveAlone lane).lane.finished = true ∧
      (converter.driveAlone lane).lane.summary = summary
  /-- It reports a panic, with its own name, if and only if a sink panics. -/
  panicked_iff : (converter.driveAlone lane).outcome = .error (.workerPanicked lane.id) ↔
    converter.PanicsAlone lane

/-- How a run one after the other ends when a lane fails that stands before others. -/
structure StopsBefore (converter : Converter W S) (schedule : List ℕ) (front back : List Lane)
    (error : ConvertError) : Prop where
  /-- The failure is reported. -/
  outcome : converter.run.1 = .error error
  /-- The lanes up to that one are in the same states as after a run by turns, and the lanes behind
  it are as they were. -/
  lanes : converter.run.2.lanes =
    (converter.runParallel schedule).2.lanes.take (front.length + 1) ++ back
  /-- The sinks of the lanes behind it are as they were. -/
  untouched : ∀ stream number, converter.registry.sinks.find? stream = some number →
    (∃ other ∈ back, stream ∈ other.streams) →
      converter.run.2.registry.made[number]? = converter.registry.made[number]?
  /-- All other sinks are as after a run by turns. -/
  sinks : ∀ stream number, converter.registry.sinks.find? stream = some number →
    (∀ other ∈ back, stream ∉ other.streams) →
      converter.run.2.registry.made[number]? =
        (converter.runParallel schedule).2.registry.made[number]?

/-- How the two modes of a run agree. One after the other there is no worker that could contain a
panic, so nothing is said of this mode when a sink panics. -/
structure ModesAgree (converter : Converter W S) (schedule : List ℕ) : Prop where
  /-- By turns, every lane ends as it does when no other lane is driven. -/
  drives : converter.drives schedule = converter.lanes.map converter.driveAlone
  /-- It is left so. -/
  lanes : (converter.runParallel schedule).2.lanes =
    converter.lanes.map fun lane => (converter.driveAlone lane).lane
  /-- It fails with an error or a panic, or it is finished. -/
  alone : ∀ lane ∈ converter.lanes, converter.EndsAlone lane
  /-- If a lane fails, the failure of the first lane that fails is reported by turns; and, unless a
  sink panicked there, one after the other as well. -/
  failure : (∃ lane ∈ converter.lanes, Fails (converter.driveAlone lane).outcome) →
    ∃ front lane back error, converter.FirstFailing front lane back error ∧
      (converter.runParallel schedule).1 = .error error ∧
      (¬converter.PanicsAlone lane → converter.StopsBefore schedule front back error)
  /-- If no sink panics, both modes have the same outcome. -/
  outcome : (∀ lane ∈ converter.lanes, ¬converter.PanicsAlone lane) →
    converter.run.1 = (converter.runParallel schedule).1
  /-- If moreover no lane fails, they leave the same lanes and sinks. -/
  success : (∀ lane ∈ converter.lanes, ¬converter.PanicsAlone lane) →
    (∀ lane ∈ converter.lanes, ¬Fails (converter.driveAlone lane).outcome) →
      converter.run.2.lanes = (converter.runParallel schedule).2.lanes ∧
        converter.run.2.registry.made = (converter.runParallel schedule).2.registry.made

/-- Take an open converter as its operations left it, whose sinks are isolated, whose lanes read
files that no sink changes, and of whose lanes no two have a stream in common. Run its lanes by
turns as any schedule says, and, from the same state, one after the other. The two modes agree. -/
theorem run_agrees_with_runParallel
    (hreachable : Reachable converter.kind converter.opener converter)
    (hopen : converter.isOpen = true) (hkind : converter.kind.Isolated setting)
    (hworld : setting.usable converter.registry.world)
    (hinputs : ∀ lane ∈ converter.lanes, ∀ location, lane.source.Reads location →
      setting.inputs location)
    (hdisjoint : converter.StreamsDisjoint) (schedule : List ℕ) :
    converter.ModesAgree schedule := by
  have h : converter.Ready setting :=
    ⟨hopen, hreachable.consistent, hkind, hworld, hinputs⟩
  have hparallel := h.lanes_runWith_parallel hdisjoint schedule
  constructor
  case drives => exact h.drives_eq hdisjoint schedule
  case lanes => exact hparallel
  case alone =>
    exact fun lane hlane =>
      { finished := fun summary hok => h.finished_of_driveAlone hlane hok
        panicked_iff := driveAlone_panicked_iff lane }
  case failure =>
    intro hfailure
    obtain ⟨front, lane, back, error, hfirst⟩ := exists_failsFirst hfailure
    obtain ⟨hone, hleft, -⟩ := h.runWith_sequential_failure hdisjoint hfirst
    refine ⟨front, lane, back, error, hfirst,
      (h.runWith_parallel_failure hdisjoint hfirst schedule).1, fun _ => {
        outcome := hone
        lanes := ?_
        untouched := fun stream number hnumber =>
          (h.made_of_failure hdisjoint hfirst schedule hnumber).1
        sinks := fun stream number hnumber =>
          (h.made_of_failure hdisjoint hfirst schedule hnumber).2 }⟩
    have hstates : (converter.runParallel schedule).2.lanes.take (front.length + 1) =
        (front ++ [lane]).map fun other => (converter.driveAlone other).lane := by
      refine (congrArg (List.take _) hparallel).trans ?_
      rw [hfirst.all_eq, List.append_cons, List.map_append]
      refine List.take_left' ?_
      rw [List.length_map, List.length_append, List.length_singleton]
    rw [hstates]
    exact hleft
  case outcome =>
    intro hquiet
    by_cases hfailure : ∃ lane ∈ converter.lanes, Fails (converter.driveAlone lane).outcome
    · obtain ⟨front, lane, back, error, hfirst⟩ := exists_failsFirst hfailure
      have hone := (h.runWith_sequential_failure hdisjoint hfirst).1
      have hturns := (h.runWith_parallel_failure hdisjoint hfirst schedule).1
      exact hone.trans hturns.symm
    · have hok : ∀ lane ∈ converter.lanes, ¬Fails (converter.driveAlone lane).outcome :=
        fun lane hlane hfails => hfailure ⟨lane, hlane, hfails⟩
      exact (h.runWith_sequential_congr hdisjoint hok schedule).1
  case success => exact fun _ hok => (h.runWith_sequential_congr hdisjoint hok schedule).2

end Run

end Converter

/-- The file of the first lane ends inside its second cycle, and the sink of the second lane panics
after one sample. -/
def tracedPair : Converter TraceLog TraceSink :=
  ((Converter.new (TraceSink.kind { panics := [("B", 1)] }) [] fun path =>
    .ok (.ofBytes (if path.text = "p" then [1, 2, 3] else [5, 6, 7, 8]))).openDescriptor
      pairRecording ⟨""⟩).2

/-- Both modes report that the first file is truncated, though the second lane panics as well when
the lanes take turns. -/
theorem Converter.run_agrees_with_runParallel_of_tracedPair :
    (tracedPair.runParallel [1, 1, 0]).1 = .error (.source "P" (.truncated 3 1 0)) ∧
      tracedPair.run.1 = .error (.source "P" (.truncated 3 1 0)) ∧
      (tracedPair.lanes.map tracedPair.driveAlone).map (·.outcome) =
        [.error (.source "P" (.truncated 3 1 0)), .error (.workerPanicked "Q")] := by
  have hopen : tracedPair.isOpen = true := by with_unfolding_all rfl
  have hdisjoint : tracedPair.StreamsDisjoint := by decide +kernel
  have hturns : (tracedPair.runParallel [1, 1, 0]).1 =
      .error (.source "P" (.truncated 3 1 0)) := by with_unfolding_all rfl
  have hfailure : ∃ lane ∈ tracedPair.lanes, Fails (tracedPair.driveAlone lane).outcome := by
    decide +kernel
  have hdrives : (tracedPair.drives [1, 1, 0]).map (·.outcome) =
      [.error (.source "P" (.truncated 3 1 0)), .error (.workerPanicked "Q")] := by
    with_unfolding_all rfl
  have hagree := run_agrees_with_runParallel (.openDescriptor (.new []) pairRecording ⟨""⟩) hopen
    (TraceSink.kind_isolated _) trivial (fun _ _ _ _ => trivial) hdisjoint [1, 1, 0]
  obtain ⟨front, lane, back, error, hfirst, hreport, hstops⟩ := hagree.failure hfailure
  obtain rfl : error = .source "P" (.truncated 3 1 0) :=
    Except.error.inj (hreport.symm.trans hturns)
  have hlane : lane ∈ tracedPair.lanes := by
    rw [hfirst.all_eq]
    exact List.mem_append_right front List.mem_cons_self
  have hquiet : ¬tracedPair.PanicsAlone lane := by
    rw [← (hagree.alone lane hlane).panicked_iff, hfirst.outcome_eq]
    exact nofun
  rw [hagree.drives] at hdrives
  exact ⟨hturns, (hstops hquiet).outcome, hdrives⟩

end SampleDemux
