import SampleDemux.Proofs.ScheduleIndependence

/-!
# Lanes that fail beside others

When lanes are run by turns and some of them fail, the others are not touched: each of them comes
to its own end, and the sink of a stream that only such lanes have is given all their samples for
it, as it is when the lanes that fail are left out. The first failure in the order of the lanes is
reported. But no sink is finished then, not even those of the lanes that came to their ends.
-/

namespace SampleDemux

open Process

namespace Converter

variable {W S : Type} {converter : Converter W S} {setting : Setting W S} {schedule : List ℕ}

/-- The converter without the lanes that fail when all of them are driven by turns. -/
def withoutFailing (converter : Converter W S) (schedule : List ℕ) : Converter W S :=
  { converter with
    lanes := ((converter.lanes.zip (converter.drives schedule)).filter
      fun entry => ¬Fails entry.2.outcome).map (·.1) }

/-- Every lane that has a stream comes to its end without a failure when all lanes are driven by
turns. -/
def Spares (converter : Converter W S) (schedule : List ℕ) (stream : String) : Prop :=
  List.Forall₂ (fun lane drive => stream ∈ lane.streams → ¬Fails drive.outcome) converter.lanes
    (converter.drives schedule)

/-- Whether all lanes of a stream come to their ends can be told. -/
instance Spares.decidable (converter : Converter W S) (schedule : List ℕ) (stream : String) :
    Decidable (converter.Spares schedule stream) :=
  inferInstanceAs (Decidable (List.Forall₂ _ converter.lanes (converter.drives schedule)))

/-- Of some things in order, such as lanes or what came of driving them, one is the first that
fails. -/
structure FailsFirst {α : Type} (outcome : α → Except ConvertError LaneSummary) (all front : List α)
    (failing : α) (back : List α) (error : ConvertError) : Prop where
  /-- It stands between others. -/
  all_eq : all = front ++ failing :: back
  /-- Those before it do not fail. -/
  front : ∀ other ∈ front, ¬Fails (outcome other)
  /-- It fails with the error. -/
  outcome_eq : outcome failing = .error error

/-- If something fails, there is a first one. -/
theorem exists_failsFirst {α : Type} {outcome : α → Except ConvertError LaneSummary} {all : List α}
    (h : ∃ failing ∈ all, Fails (outcome failing)) :
    ∃ front failing back error, FailsFirst outcome all front failing back error := by
  rcases forall_or_exists_first (fun one => ¬Fails (outcome one)) all with
    hall | ⟨front, failing, back, hsplit, hfront, hfails⟩
  · obtain ⟨failing, hmem, hfails⟩ := h
    exact absurd hfails (hall failing hmem)
  · obtain ⟨error, herror⟩ := not_not.mp hfails
    exact ⟨front, failing, back, error, hsplit, hfront, herror⟩

/-- The first failure in the order of the lanes is reported. -/
theorem FailsFirst.firstFailure_eq {drives front back : List Lane.Drive} {drive : Lane.Drive}
    {error : ConvertError} (h : FailsFirst (·.outcome) drives front drive back error) :
    firstFailure drives = .error error := by
  rcases h with ⟨rfl, hfront, herror⟩
  induction front with
  | nil => rw [List.nil_append, firstFailure, herror]
  | cons first front ih =>
    obtain ⟨hfirst, hothers⟩ := List.forall_mem_cons.mp hfront
    rw [List.cons_append, firstFailure, ih hothers]
    cases houtcome : first.outcome with
    | error cause => exact absurd ⟨cause, houtcome⟩ hfirst
    | ok summary => rfl

section Streams

/-- A lane without a stream has no sample for it. -/
theorem Ready.ownSamplesOf_eq_nil (h : converter.Ready setting) {lane : Lane}
    (hlane : lane ∈ converter.lanes) {stream : String} (hstream : stream ∉ lane.streams) :
    lane.ownSamplesOf setting.contents stream = [] := by
  refine List.filter_eq_nil_iff.mpr fun delivery hdelivery hsame => hstream ?_
  rw [← beq_iff_eq.mp hsame]
  exact (h.sink_of_mem_ownSamples hlane hdelivery).1

/-- What a lane gives to the sink of a stream, however it ends, are its own samples for the stream,
if it does not fail or does not have the stream. -/
theorem Ready.deliveriesTo_ending (h : converter.Ready setting) {lane : Lane}
    (hlane : lane ∈ converter.lanes) {stream : String} {number : ℕ}
    (hnumber : converter.registry.sinks.find? stream = some number)
    {ending : List Delivery × Lane.Drive}
    (hends : lane.drive.EndsAs setting.contents (fun drive => Fails drive.outcome) ending)
    (hspared : stream ∈ lane.streams → ¬Fails ending.2.outcome) :
    deliveriesTo number ending.1 = lane.ownSamplesOf setting.contents stream := by
  have hown := h.deliveriesTo_ownSamples hlane hnumber
  by_cases hstream : stream ∈ lane.streams
  · rw [hends.eq_own (hspared hstream)]
    exact hown
  · -- A lane that fails has delivered first samples of its own, none of which is for the stream.
    have hnone := h.ownSamplesOf_eq_nil hlane hstream
    rw [hnone] at hown ⊢
    rcases hends with rfl | ⟨-, hprefix⟩
    · exact hown
    · have hpart : deliveriesTo number ending.1 <+: [] := hown ▸ hprefix.filter _
      exact List.prefix_nil.mp hpart

/-- If every lane of a stream comes to its end, the sink of the stream is given a merge of the
lanes' own samples for it. -/
theorem Ready.merge_of_spares (h : converter.Ready setting)
    {endings : List (List Delivery × Lane.Drive)} {calls : List Delivery}
    (hends : RunTo converter.kind setting.contents (fun drive : Lane.Drive => Fails drive.outcome)
      (converter.lanes.map Lane.drive) converter.registry endings calls)
    (hdrives : converter.drives schedule = endings.map (·.2)) {stream : String} {number : ℕ}
    (hnumber : converter.registry.sinks.find? stream = some number)
    (hspares : converter.Spares schedule stream) :
    IsMerge (deliveriesTo number calls)
      (converter.lanes.map (·.ownSamplesOf setting.contents stream)) := by
  unfold Spares at hspares
  rw [hdrives, List.forall₂_map_right_iff] at hspares
  have hlanes := List.forall₂_map_left_iff.mp hends.ends
  have hboth := hlanes.mp (fun _ _ hlane hspared => And.intro hlane hspared) hspares
  have hparts : converter.lanes.map (·.ownSamplesOf setting.contents stream) =
      (endings.map (·.1)).map (deliveriesTo number) := by
    rw [List.map_map]
    exact map_eq_of_forall₂ hboth fun lane hlane ending hending =>
      (h.deliveriesTo_ending hlane hnumber hending.1 hending.2).symm
  rw [hparts]
  exact hends.merge.filter _

/-- If at most one lane has a stream, at most one has samples for it. -/
theorem Ready.pairwise_ownSamplesOf (h : converter.Ready setting) {stream : String}
    (hsingle : converter.lanes.Pairwise fun lane other =>
      stream ∈ lane.streams → stream ∉ other.streams) :
    (converter.lanes.map (·.ownSamplesOf setting.contents stream)).Pairwise
      fun first second => first = [] ∨ second = [] := by
  rw [List.pairwise_map]
  refine hsingle.imp_of_mem fun {lane other} hlane hother hapart => ?_
  by_cases hstream : stream ∈ lane.streams
  · exact .inr (h.ownSamplesOf_eq_nil hother (hapart hstream))
  · exact .inl (h.ownSamplesOf_eq_nil hlane hstream)

end Streams

section WithoutFailing

/-- A ready converter is ready without the lanes that fail. -/
theorem Ready.withoutFailing (h : converter.Ready setting) :
    (converter.withoutFailing schedule).Ready setting where
  isOpen := h.isOpen
  consistent :=
    { registry := h.consistent.registry
      lanes := fun lane hlane => h.consistent.lanes lane ((kept_sublist _ _).subset hlane)
      closed := fun hclosed => absurd (h.isOpen.symm.trans hclosed) Bool.true_eq_false.mp }
  kind := h.kind
  usable := h.usable
  inputs := fun lane hlane => h.inputs lane ((kept_sublist _ _).subset hlane)

/-- A stream of one lane, which comes to its end, is given the same samples without the lanes that
fail, and its sink is finished then. -/
theorem Ready.made_withoutFailing (h : converter.Ready setting)
    {endings : List (List Delivery × Lane.Drive)} {calls : List Delivery}
    (hends : RunTo converter.kind setting.contents (fun drive : Lane.Drive => Fails drive.outcome)
      (converter.lanes.map Lane.drive) converter.registry endings calls)
    (hdrives : converter.drives schedule = endings.map (·.2)) {stream : String} {number : ℕ}
    (hnumber : converter.registry.sinks.find? stream = some number)
    (hspares : converter.Spares schedule stream)
    (hsingle : converter.lanes.Pairwise fun lane other =>
      stream ∈ lane.streams → stream ∉ other.streams) {mode : RunMode}
    {summaries : List LaneSummary}
    (hok : ((converter.withoutFailing schedule).runWith mode).1.outcome = .ok summaries) :
    ((converter.withoutFailing schedule).runWith mode).2.registry.made[number]? =
      ((converter.registry.consumeAll converter.kind calls).made[number]?).map fun sink =>
        { sink with state := (setting.finish sink.state).2 } := by
  have halone : (converter.withoutFailing schedule).Ready setting := h.withoutFailing
  rcases halone.runWith_eq hok with ⟨others, hothers, -, -, hfinish, hrun⟩
  have hkept : (converter.withoutFailing schedule).lanes.Sublist converter.lanes :=
    kept_sublist _ _
  have hpieces : (converter.withoutFailing schedule).lanes.flatMap
      (·.ownSamplesOf setting.contents stream) =
        converter.lanes.flatMap (·.ownSamplesOf setting.contents stream) := by
    refine kept_flatMap hspares fun lane hlane drive hspared hfails => ?_
    refine h.ownSamplesOf_eq_nil hlane fun hstream => ?_
    exact of_decide_eq_false hfails (hspared hstream)
  have hmerge := h.merge_of_spares hends hdrives hnumber hspares
  have hmergeAlone := halone.merge_ownSamplesOf hothers hnumber
  -- One lane has the stream, so both merges are what the lanes give one after the other; the lanes
  -- that are left out give nothing for it.
  have hgiven : deliveriesTo number others = deliveriesTo number calls := by
    rw [hmerge.eq_flatten (h.pairwise_ownSamplesOf hsingle),
      hmergeAlone.eq_flatten (halone.pairwise_ownSamplesOf (hsingle.sublist hkept)),
      ← List.flatMap_def, ← List.flatMap_def, hpieces]
  have hmade := halone.made_finishAll hfinish hnumber
  rw [hrun]
  dsimp only
  rw [hmade, hgiven, Registry.made_consumeAll h.kind h.usable, Option.map_map]
  rfl

/-- How a run by turns ends in which some lanes fail, and the sinks got the samples `calls`. -/
structure EndsUnfinished (setting : Setting W S) (converter : Converter W S) (schedule : List ℕ)
    (error : ConvertError) (calls : List Delivery) : Prop where
  /-- The error is reported, an observer has seen all lanes, and the sinks were given the samples,
  but none of them was finished. -/
  run_eq : converter.runWith (.parallel schedule) =
    (⟨.error error, (converter.drives schedule).map (·.seen)⟩,
      { converter with
        lanes := (converter.drives schedule).map (·.lane)
        registry := converter.registry.consumeAll converter.kind calls })
  /-- Every lane that does not fail comes to its own totals and end. -/
  lanes : List.Forall₂
    (fun lane drive => ¬Fails drive.outcome → drive = lane.drive.ownResult setting.contents)
    converter.lanes (converter.drives schedule)
  /-- If every lane that has a stream comes to its end, the stream's sink was given a merge of these
  lanes' own samples for the stream. -/
  streams : ∀ stream number, converter.registry.sinks.find? stream = some number →
    converter.Spares schedule stream →
    IsMerge (deliveriesTo number calls)
      (converter.lanes.map (·.ownSamplesOf setting.contents stream))
  /-- It keeps what these make it keep. -/
  sinks : ∀ stream number, converter.registry.sinks.find? stream = some number →
    converter.Spares schedule stream →
    (converter.runWith (.parallel schedule)).2.registry.made[number]? =
      (converter.registry.made[number]?).map fun sink =>
        { sink with state := setting.feed sink.state (deliveriesTo number calls) }
  /-- If one lane only has the stream, a run without the lanes that fail differs in that it finishes
  the stream's sink. -/
  withoutFailing : ∀ stream number, converter.registry.sinks.find? stream = some number →
    converter.Spares schedule stream →
    (converter.lanes.Pairwise fun lane other => stream ∈ lane.streams → stream ∉ other.streams) →
    ∀ mode summaries, ((converter.withoutFailing schedule).runWith mode).1.outcome = .ok summaries →
      ((converter.withoutFailing schedule).runWith mode).2.registry.made[number]? =
        ((converter.runWith (.parallel schedule)).2.registry.made[number]?).map fun sink =>
          { sink with state := (setting.finish sink.state).2 }

/-- Take an open converter as its operations left it, whose sinks are isolated and whose lanes read
files that no sink changes, and run its lanes by turns as any schedule says. If some lanes fail, the
first failure in the order of the lanes is reported, and no sink is finished, though the other lanes
come to their ends. -/
theorem runWith_parallel_of_failure
    (hreachable : Reachable converter.kind converter.opener converter)
    (hopen : converter.isOpen = true) (hkind : converter.kind.Isolated setting)
    (hworld : setting.usable converter.registry.world)
    (hinputs : ∀ lane ∈ converter.lanes, ∀ location, lane.source.Reads location →
      setting.inputs location)
    (hfailure : ∃ drive ∈ converter.drives schedule, Fails drive.outcome) :
    ∃ front drive back error calls,
      FailsFirst (·.outcome) (converter.drives schedule) front drive back error ∧
      EndsUnfinished setting converter schedule error calls := by
  have h : converter.Ready setting :=
    ⟨hopen, hreachable.consistent, hkind, hworld, hinputs⟩
  rcases h.exists_drives schedule with ⟨endings, calls, hends, hdrives, hdriven⟩
  rcases exists_failsFirst hfailure with ⟨front, drive, back, error, hfirst⟩
  rw [hfirst.firstFailure_eq] at hdriven
  have hrun := runWith_of_error hopen (.parallel schedule) (by rw [hdriven])
  rw [hdriven] at hrun
  have hlanes := List.forall₂_map_left_iff.mp hends.ends
  refine ⟨front, drive, back, error, calls, hfirst, {
    run_eq := hrun
    lanes := ?_
    streams := fun stream number hnumber hspares =>
      h.merge_of_spares hends hdrives hnumber hspares
    sinks := fun stream number hnumber hspares => ?_
    withoutFailing := fun stream number hnumber hspares hsingle mode summaries hok => ?_ }⟩
  · rw [hdrives, List.forall₂_map_right_iff]
    exact hlanes.imp fun lane ending hending hok => congrArg Prod.snd (hending.eq_own hok)
  · rw [hrun]
    exact Registry.made_consumeAll hkind hworld calls number
  · rw [hrun]
    exact h.made_withoutFailing hends hdrives hnumber hspares hsingle hok

end WithoutFailing

end Converter

/-- The file of the second lane ends inside a cycle: the sink of the first lane has all its samples,
and is finished only when the second lane is left out. -/
theorem Converter.runWith_parallel_of_failure_of_pairRecording :
    ((openPair pairRecording [1, 2, 3, 4] [5, 6, 7]).runWith (.parallel [])).1.outcome =
        .error (.source "Q" (.truncated 3 1 0)) ∧
      (((openPair pairRecording [1, 2, 3, 4] [5, 6, 7]).withoutFailing []).runWith
          .sequential).2.registry.made[0]? =
        (((openPair pairRecording [1, 2, 3, 4] [5, 6, 7]).runWith
          (.parallel [])).2.registry.made[0]?).map fun sink =>
            { sink with state := { sink.state with finished := true } } := by
  have hopen : (openPair pairRecording [1, 2, 3, 4] [5, 6, 7]).isOpen = true := by
    with_unfolding_all rfl
  have hfailure : ∃ drive ∈ (openPair pairRecording [1, 2, 3, 4] [5, 6, 7]).drives [],
      Fails drive.outcome := by decide +kernel
  have hnumber : (openPair pairRecording [1, 2, 3, 4] [5, 6, 7]).registry.sinks.find? "A" =
      some 0 := by decide +kernel
  have hspares : (openPair pairRecording [1, 2, 3, 4] [5, 6, 7]).Spares [] "A" := by
    decide +kernel
  have hsingle : (openPair pairRecording [1, 2, 3, 4] [5, 6, 7]).lanes.Pairwise fun lane other =>
      "A" ∈ lane.streams → "A" ∉ other.streams := by decide +kernel
  have halone : (((openPair pairRecording [1, 2, 3, 4] [5, 6, 7]).withoutFailing []).runWith
      .sequential).1.outcome = .ok [⟨"P", 2, 4, 2⟩] := by with_unfolding_all rfl
  rcases runWith_parallel_of_failure (.openDescriptor (.new ()) pairRecording ⟨""⟩) hopen
    MemorySink.kind_isolated trivial (fun _ _ _ _ => trivial) hfailure with
    ⟨front, drive, back, error, calls, -, hends⟩
  have hfinished := hends.withoutFailing "A" 0 hnumber hspares hsingle .sequential _ halone
  exact ⟨by with_unfolding_all rfl, hfinished⟩

/-- Beside a lane that fails, a lane that came to its end has a sink with all the samples that the
sink has when the other lane is not declared, but the sink is not finished. -/
theorem Converter.runWith_parallel_unfinished :
    (openPair pairRecording [1, 2, 3, 4] [5, 6, 7]).Spares [] "A" ∧
      ((openPair pairRecording [1, 2, 3, 4] [5, 6, 7]).runWith (.parallel [])).1.outcome =
        .error (.source "Q" (.truncated 3 1 0)) ∧
      ((openPair { pairRecording with lanes := [byteLane "P" "A"] } [1, 2, 3, 4] []).runWith
        (.parallel [])).1.outcome = .ok [⟨"P", 2, 4, 2⟩] ∧
      ∃ samples, samples.length = 2 ∧
        ((openPair pairRecording [1, 2, 3, 4] [5, 6, 7]).runWith
          (.parallel [])).2.registry.made[0]? = some ⟨"A", { samples, finished := false }⟩ ∧
        ((openPair { pairRecording with lanes := [byteLane "P" "A"] } [1, 2, 3, 4] []).runWith
          (.parallel [])).2.registry.made[0]? = some ⟨"A", { samples, finished := true }⟩ := by
  have hspares : (openPair pairRecording [1, 2, 3, 4] [5, 6, 7]).Spares [] "A" := by
    decide +kernel
  obtain ⟨first, second, hbeside, halone⟩ : ∃ first second,
      ((openPair pairRecording [1, 2, 3, 4] [5, 6, 7]).runWith
        (.parallel [])).2.registry.made[0]? =
          some ⟨"A", { samples := [first, second], finished := false }⟩ ∧
      ((openPair { pairRecording with lanes := [byteLane "P" "A"] } [1, 2, 3, 4] []).runWith
        (.parallel [])).2.registry.made[0]? =
          some ⟨"A", { samples := [first, second], finished := true }⟩ :=
    ⟨_, _, by with_unfolding_all rfl, by with_unfolding_all rfl⟩
  exact ⟨hspares, by with_unfolding_all rfl, by with_unfolding_all rfl, [first, second], rfl,
    hbeside, halone⟩

end SampleDemux
