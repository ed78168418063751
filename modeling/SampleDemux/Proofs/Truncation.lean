import SampleDemux.Proofs.ScheduleIndependence

/-!
# Calling a lane again

A lane may be stepped and run in any order, also after a call has failed. Up to the first failure
its answers tell a recording that is finished from one that is cut short: the end is reported only
when cycles have taken every byte. A recording that is cut short fails once. What is left of its
last cycle is gone then, so that the lane stands where a cycle would begin and no byte follows:
every further call reports a clean end, and the sinks are finished as if the recording were whole.
-/

namespace SampleDemux

namespace LanePlan

variable {plan : LanePlan}

/-- Bytes that no region is cut in end with a cycle. -/
theorem IsBuilt.boundary_eq_of_cut (h : plan.IsBuilt) {available : ℕ}
    (hcut : plan.cut? available = none) :
    plan.boundary (plan.wholeCycles available) = available := by
  by_contra hrest
  obtain ⟨_, size, got, -, -, hfound⟩ := h.exists_cut hrest
  rw [hcut] at hfound
  cases hfound

/-- Bytes that a region is cut in are more than those of the whole cycles. -/
theorem boundary_lt_of_cut {available size got : ℕ}
    (hcut : plan.cut? available = some (size, got)) :
    plan.boundary (plan.wholeCycles available) < available := by
  refine lt_of_le_of_ne (plan.boundary_wholeCycles_le available) fun hend => ?_
  rw [cut?, if_pos hend] at hcut
  cases hcut

end LanePlan

namespace Lane

/-- What a caller asks of a lane. -/
inductive Call where
  /-- One cycle. -/
  | step
  /-- All cycles up to the end of the input. -/
  | run
  deriving DecidableEq, Repr

/-- Answers a call. A run that succeeds reports the end of the input. -/
def answer (lane : Lane) : Call → Process (Except ConvertError Step × Lane)
  | .step => lane.step
  | .run => lane.run.map fun (outcome, lane) => (outcome.map fun _ => .endOfInput, lane)

/-- Answers calls one after the other, whether they fail or not. -/
def answers (lane : Lane) : List Call → Process (List (Except ConvertError Step) × Lane)
  | [] => .done ([], lane)
  | call :: rest =>
    (lane.answer call).bind fun (outcome, lane) =>
      (lane.answers rest).map fun (outcomes, lane) => (outcome :: outcomes, lane)

variable {W S : Type} {registry : Registry W S} {plan : LanePlan} {data : List UInt8} {cycle : ℕ}
  {lane : Lane}

/-- At the end of its bytes a lane reports the end of the input, whether it was finished or not. -/
theorem AtEnd.step (h : AtEnd registry plan data lane) (hplan : plan.IsBuilt) :
    ∃ next, lane.step.Delivers [] (.ok .endOfInput, next) ∧ next.finished = true ∧
      AtEnd registry plan data next := by
  cases hfinished : lane.finished with
  | true =>
    refine ⟨lane, ?_, hfinished, h⟩
    rw [Lane.step, if_pos hfinished]
    exact .done _
  | false =>
    obtain ⟨hturn, -, ⟨index, cycles, hsame⟩, block, runner, -, hbuilt, -, hrunner, hattached⟩ :=
      h.toFollows.turn hplan
    have hserves : lane.turn.source.Serves (plan.file.offset + data.length) [] := by
      rw [hsame]
      exact h.serves
    have hsummary : lane.turn.summary = lane.summary := by rw [hsame]
    obtain ⟨behind, hrun, hbehind⟩ :=
      hattached.runCycle_end lane.turn.id hbuilt.chunks hbuilt.size_pos hserves
    refine ⟨{ lane.turn with source := behind, finished := true }, ?_, rfl,
      ⟨hturn.id_eq, hturn.blocks, hturn.progress⟩, hbehind, hsummary.trans h.summary⟩
    rw [step_eq_settle hfinished hrunner, hrun]
    exact .done _

/-- At the end of its bytes a lane answers every call with the end of the input. -/
theorem AtEnd.answer (h : AtEnd registry plan data lane) (hplan : plan.IsBuilt) (call : Call) :
    ∃ next, (lane.answer call).Delivers [] (.ok .endOfInput, next) ∧ next.finished = true ∧
      AtEnd registry plan data next := by
  obtain ⟨next, hstep, hfinished, hnext⟩ := h.step hplan
  refine ⟨next, ?_, hfinished, hnext⟩
  cases call with
  | step => exact hstep
  | run =>
    have hbound : lane.source.bound = 0 := h.serves.bound_eq
    have hdrive : lane.drive.Delivers [] ⟨.ok next.summary, [⟨next.position, true⟩], next⟩ := by
      rw [Lane.drive, hbound, ← hfinished]
      exact hstep.bind (.done _)
    have hrun := hdrive.map fun drive => (drive.outcome, drive.lane)
    exact hrun.map fun (outcome, lane) => (outcome.map fun _ => Step.endOfInput, lane)

/-- At the end of its bytes a lane answers all calls with the end of the input. -/
theorem AtEnd.answers (h : AtEnd registry plan data lane) (hplan : plan.IsBuilt)
    (calls : List Call) :
    ∃ next, (lane.answers calls).Delivers []
        (List.replicate calls.length (.ok .endOfInput), next) ∧
      next.finished = (lane.finished || decide (0 < calls.length)) ∧
      AtEnd registry plan data next := by
  induction calls generalizing lane with
  | nil => exact ⟨lane, .done _, (Bool.or_false _).symm, h⟩
  | cons call calls ih =>
    obtain ⟨between, hanswer, hfinished, hbetween⟩ := h.answer hplan call
    obtain ⟨next, hanswers, hlast, hnext⟩ := ih hbetween
    refine ⟨next, ?_, ?_, hnext⟩
    · exact hanswer.bind (hanswers.map _)
    · rw [hlast, hfinished, Bool.true_or, List.length_cons, decide_eq_true (Nat.succ_pos _),
        Bool.or_true]

/-- How calls of a lane that has bytes left are answered, and the lane afterwards. -/
inductive Course (registry : Registry W S) (plan : LanePlan) (data : List UInt8) :
    List (Except ConvertError Step) → Lane → Prop
  /-- There are further cycles, or they are still to be looked for. -/
  | underWay {cycle : ℕ} {lane : Lane} (h : AtCycle registry plan data cycle lane) :
    Course registry plan data [] lane
  /-- A cycle is completed first. -/
  | cycle {bytes samples : ℕ} {outcomes : List (Except ConvertError Step)} {lane : Lane}
    (h : Course registry plan data outcomes lane) :
    Course registry plan data (.ok (.cycle bytes samples) :: outcomes) lane
  /-- The bytes end with a cycle. -/
  | ended {retries : ℕ} {lane : Lane} (hcut : plan.cut? data.length = none)
    (hfinished : lane.finished = true) (h : AtEnd registry plan data lane) :
    Course registry plan data (.ok .endOfInput :: List.replicate retries (.ok .endOfInput)) lane
  /-- The bytes end inside a cycle. -/
  | cut {retries size got : ℕ} {lane : Lane} (hcut : plan.cut? data.length = some (size, got))
    (hfinished : lane.finished = decide (0 < retries)) (h : AtEnd registry plan data lane) :
    Course registry plan data
      (.error (.source plan.id (.truncated (plan.file.offset + data.length - got) size got)) ::
        List.replicate retries (.ok .endOfInput)) lane

/-- A lane before a cycle completes it, or comes to the end of its bytes. -/
theorem AtCycle.answer (h : AtCycle registry plan data cycle lane) (hplan : plan.IsBuilt)
    (call : Call) :
    ∃ emissions deliveries outcome next,
      List.Forall₂ registry.Addresses emissions deliveries ∧
      (lane.answer call).Delivers deliveries (outcome, next) ∧
      ((∃ bytes samples further, outcome = .ok (.cycle bytes samples) ∧
          AtCycle registry plan data further next) ∨
        (plan.cut? data.length = none ∧ outcome = .ok .endOfInput ∧ next.finished = true ∧
          AtEnd registry plan data next) ∨
        ∃ size got, plan.cut? data.length = some (size, got) ∧
          outcome = .error (.source plan.id
            (.truncated (plan.file.offset + data.length - got) size got)) ∧
          next.finished = false ∧ AtEnd registry plan data next) := by
  cases call with
  | step =>
    by_cases hnext : plan.boundary (cycle + 1) ≤ data.length
    · obtain ⟨deliveries, next, hdeliveries, hstep, hafter⟩ := h.step_full hplan hnext
      exact ⟨_, deliveries, _, next, hdeliveries, hstep, .inl ⟨_, _, _, rfl, hafter⟩⟩
    -- No further cycle fits, so that all whole ones are done.
    have hwhole : cycle = plan.wholeCycles data.length := by
      have hdone := hplan.le_wholeCycles h.fits
      have hfits := plan.boundary_wholeCycles_le data.length
      by_contra hmore
      have hstill : cycle + 1 ≤ plan.wholeCycles data.length := by omega
      exact hnext ((hplan.boundary_strictMono.monotone hstill).trans hfits)
    subst hwhole
    by_cases hend : plan.boundary (plan.wholeCycles data.length) = data.length
    · obtain ⟨next, hstep, hfinished, hatEnd⟩ := h.step_end hplan hend
      have hcut : plan.cut? data.length = none := by rw [LanePlan.cut?, if_pos hend]
      exact ⟨[], [], _, next, .nil, hstep, .inr (.inl ⟨hcut, rfl, hfinished, hatEnd⟩)⟩
    · obtain ⟨size, got, deliveries, next, hcut, hdeliveries, hstep, hfinished, hatEnd⟩ :=
        h.step_cut hplan hend
      exact ⟨_, deliveries, _, next, hdeliveries, hstep,
        .inr (.inr ⟨size, got, hcut, rfl, hfinished, hatEnd⟩)⟩
  | run =>
    obtain ⟨deliveries, drive, hdeliveries, hdrive, houtcome, hatEnd, hfinished⟩ :=
      h.drive_delivers hplan
    have hrun := (hdrive.map fun drive => (drive.outcome, drive.lane)).map
      fun (outcome, lane) => (outcome.map fun _ => Step.endOfInput, lane)
    refine ⟨_, deliveries, _, drive.lane, hdeliveries, hrun, .inr ?_⟩
    rw [houtcome, LanePlan.outcome, hfinished]
    cases hcut : plan.cut? data.length with
    | none => exact .inl ⟨rfl, rfl, rfl, hatEnd⟩
    | some region => exact .inr ⟨region.1, region.2, rfl, rfl, rfl, hatEnd⟩

/-- Calls of a lane before a cycle take their course. -/
theorem AtCycle.answers (h : AtCycle registry plan data cycle lane) (hplan : plan.IsBuilt)
    (calls : List Call) :
    ∃ emissions deliveries outcomes next,
      List.Forall₂ registry.Addresses emissions deliveries ∧
      (lane.answers calls).Delivers deliveries (outcomes, next) ∧
      outcomes.length = calls.length ∧ Course registry plan data outcomes next := by
  induction calls generalizing lane cycle with
  | nil => exact ⟨[], [], [], lane, .nil, .done _, rfl, .underWay h⟩
  | cons call calls ih =>
    obtain ⟨firstEmissions, first, outcome, between, hfirst, hanswer, hbetween⟩ :=
      h.answer hplan call
    rcases hbetween with ⟨bytes, samples, further, rfl, hfurther⟩ |
      ⟨hcut, rfl, hfinished, hatEnd⟩ | ⟨size, got, hcut, rfl, hfinished, hatEnd⟩
    · obtain ⟨restEmissions, rest, outcomes, next, hrest, hanswers, hlength, hcourse⟩ :=
        ih hfurther
      exact ⟨_, first ++ rest, _, next, List.rel_append hfirst hrest,
        hanswer.bind (hanswers.map _), congrArg Nat.succ hlength, .cycle hcourse⟩
    · obtain ⟨next, hanswers, hlast, hnext⟩ := hatEnd.answers hplan calls
      rw [hfinished, Bool.true_or] at hlast
      refine ⟨_, first ++ [], _, next, by rwa [List.append_nil], hanswer.bind (hanswers.map _), ?_,
        .ended hcut hlast hnext⟩
      rw [List.length_cons, List.length_cons, List.length_replicate]
    · obtain ⟨next, hanswers, hlast, hnext⟩ := hatEnd.answers hplan calls
      rw [hfinished, Bool.false_or] at hlast
      refine ⟨_, first ++ [], _, next, by rwa [List.append_nil], hanswer.bind (hanswers.map _), ?_,
        .cut hcut hlast hnext⟩
      rw [List.length_cons, List.length_cons, List.length_replicate]

variable {outcomes : List (Except ConvertError Step)}

/-- A lane that answered some calls, none of which failed, over bytes that end at a position. -/
structure Unfailed (offset ending : ℕ) (outcomes : List (Except ConvertError Step)) (lane : Lane) :
    Prop where
  /-- The bytes that were read behind the offset are those of the completed cycles. -/
  position_eq : lane.position = offset + lane.summary.bytes
  /-- The lane is finished if a call reported the end of the input. -/
  finished_iff : lane.finished = true ↔ .ok .endOfInput ∈ outcomes
  /-- There are no other bytes then. -/
  ended : lane.finished = true → lane.position = ending

/-- A lane that answered some calls, of which one failed, over bytes that end at a position. -/
structure FailedOnce (plan : LanePlan) (ending : ℕ) (outcomes : List (Except ConvertError Step))
    (lane : Lane) (error : ConvertError) (cycles : List (Except ConvertError Step)) (retries : ℕ) :
    Prop where
  /-- Every call behind the one that fails reports the end of the input all the same. -/
  outcomes_eq : outcomes = cycles ++ .error error :: List.replicate retries (.ok .endOfInput)
  /-- Every call before it completes a cycle. -/
  before : ∀ outcome ∈ cycles, ∃ bytes samples, outcome = .ok (.cycle bytes samples)
  /-- The first call behind it makes the lane finished. -/
  finished_iff : lane.finished = true ↔ 0 < retries
  /-- The error tells where the recording is cut short. -/
  error_eq : ∃ size got, error = .source plan.id (.truncated (ending - got) size got)
  /-- Bytes were read that belong to no completed cycle. -/
  cut : plan.file.offset + lane.summary.bytes < lane.position
  /-- All bytes were read. -/
  ended : lane.position = ending

/-- While no call has failed, all bytes that were read belong to completed cycles, and the end is
reported when these have taken all bytes. -/
theorem Course.unfailed (h : Course registry plan data outcomes lane) (hplan : plan.IsBuilt)
    (hfree : ∀ error, .error error ∉ outcomes) :
    lane.Unfailed plan.file.offset (plan.file.offset + data.length) outcomes := by
  induction h with
  | underWay h =>
    have hposition := h.serves.position_eq
    have hbytes := congrArg LaneSummary.bytes h.summary
    refine ⟨by rw [Lane.position, hposition, hbytes], ?_, ?_⟩
    · rw [h.unfinished]
      exact ⟨nofun, nofun⟩
    · rw [h.unfinished]
      exact nofun
  | @cycle bytes samples rest lane h ih =>
    have hrest := ih fun error hmem => hfree error (List.mem_cons_of_mem _ hmem)
    refine ⟨hrest.position_eq, hrest.finished_iff.trans ?_, hrest.ended⟩
    rw [List.mem_cons]
    exact ⟨.inr, fun hmem => hmem.resolve_left nofun⟩
  | ended hcut hfinished h =>
    have hposition := h.serves.position_eq
    have hbytes := congrArg LaneSummary.bytes h.summary
    have hwhole := hplan.boundary_eq_of_cut hcut
    refine ⟨?_, ⟨fun _ => List.mem_cons_self, fun _ => hfinished⟩, fun _ => hposition⟩
    rw [Lane.position, hposition, hbytes, hwhole]
  | cut => exact absurd List.mem_cons_self (hfree _)

/-- A call fails only if the bytes end inside a cycle. Only cycles come before it, and every call
behind it reports the end, although bytes were read that belong to no completed cycle. -/
theorem Course.of_failure (h : Course registry plan data outcomes lane) {error : ConvertError}
    (herror : .error error ∈ outcomes) :
    ∃ cycles retries,
      FailedOnce plan (plan.file.offset + data.length) outcomes lane error cycles retries := by
  induction h with
  | underWay h => cases herror
  | @cycle bytes samples rest lane h ih =>
    obtain ⟨cycles, retries, hfailed⟩ := ih ((List.mem_cons.mp herror).resolve_left nofun)
    refine ⟨.ok (.cycle bytes samples) :: cycles, retries, { hfailed with
      outcomes_eq := ?_
      before := List.forall_mem_cons.mpr ⟨⟨bytes, samples, rfl⟩, hfailed.before⟩ }⟩
    rw [hfailed.outcomes_eq, List.cons_append]
  | ended hcut hfinished h =>
    have hnone := List.eq_of_mem_replicate ((List.mem_cons.mp herror).resolve_left nofun)
    cases hnone
  | @cut retries size got lane hcut hfinished h =>
    have hposition := h.serves.position_eq
    have hbytes := congrArg LaneSummary.bytes h.summary
    have hshort := LanePlan.boundary_lt_of_cut hcut
    have hsame : error = .source plan.id
        (.truncated (plan.file.offset + data.length - got) size got) := by
      rcases List.mem_cons.mp herror with hfirst | hlater
      · exact Except.error.inj hfirst
      · cases List.eq_of_mem_replicate hlater
    refine ⟨[], retries, {
      outcomes_eq := by rw [hsame, List.nil_append]
      before := List.forall_mem_nil _
      finished_iff := by rw [hfinished, decide_eq_true_iff]
      error_eq := ⟨size, got, hsame⟩
      cut := ?_
      ended := hposition }⟩
    rw [Lane.position, hposition, hbytes]
    exact Nat.add_lt_add_left hshort _

end Lane

namespace LanePlan

variable {plan : LanePlan}

/-- How a lane over bytes that end at a position answered calls to step and to run. -/
structure AnswersCalls (plan : LanePlan) (ending : ℕ) (calls : List Lane.Call)
    (outcomes : List (Except ConvertError Step)) (later : Lane) : Prop where
  /-- Every call is answered. -/
  length_eq : outcomes.length = calls.length
  /-- As long as no call has failed, the bytes that were read are those of the completed cycles. -/
  unfailed : (∀ error, .error error ∉ outcomes) →
    later.Unfailed plan.file.offset ending outcomes
  /-- A call that fails is the only one. -/
  failed : ∀ error, .error error ∈ outcomes →
    ∃ cycles retries, Lane.FailedOnce plan ending outcomes later error cycles retries

/-- A built lane with a block, started over a reader that never fails and has the bytes of the
file's offset, with sinks that never fail, is called to step and to run, in any order and also after
calls that failed. A call that fails finds the recording cut short, and no call behind it fails
again. -/
theorem answers_before_and_after_failure {W S : Type} {kind : SinkKind W S}
    {registry : Registry W S} {descriptor : Descriptor} {lane : LaneDecl} {reader : Reader}
    (hplan : build descriptor lane = .ok plan) (hblocks : lane.blocks ≠ [])
    (hreader : reader.FaultFree) (hoffset : plan.file.offset ≤ reader.remaining.length)
    (hkind : kind.NeverFails) (hregistry : registry.Sound) :
    ∃ started attached,
      Lane.start kind plan (.ofReader reader) registry = (.ok started, attached) ∧
      ∀ calls, ∃ outcomes later final,
        (started.answers calls).run kind attached = ((outcomes, later), final) ∧
        plan.AnswersCalls reader.remaining.length calls outcomes later := by
  have hbuilt := isBuilt_of_build hplan hblocks
  obtain ⟨started, attached, hstart, hsound, hbegin⟩ :=
    Lane.start_atCycle hkind hregistry hbuilt hreader hoffset
  have hlength : plan.file.offset + (plan.body reader.remaining).length =
      reader.remaining.length := by
    rw [body, List.length_drop, Nat.add_sub_cancel' hoffset]
  refine ⟨started, attached, hstart, fun calls => ?_⟩
  obtain ⟨emissions, deliveries, outcomes, later, hdeliveries, hanswers, hcount, hcourse⟩ :=
    hbegin.answers hbuilt calls
  have hsinks : ∀ delivery ∈ deliveries, delivery.sink < attached.made.length :=
    forall_mem_of_forall₂ hdeliveries fun _ _ haddresses => haddresses.sink_lt hsound
  refine ⟨outcomes, later, _, hanswers.run hkind hsinks, {
    length_eq := hcount
    unfailed := fun hfree => ?_
    failed := fun error herror => ?_ }⟩
  · have hunfailed := hcourse.unfailed hbuilt hfree
    rwa [hlength] at hunfailed
  · have hfailure := hcourse.of_failure herror
    rwa [hlength] at hfailure

end LanePlan

/-- A lane with a cycle of three bytes, two of them in front of the sample, and then cycles of two
bytes. -/
def headedLane : LaneDecl where
  id := "Q"
  systems := ["S"]
  blocks := [
    { cycles := 1, sizeHeader := 2
      chunks := [{ lumps := [{ streams := [{ id := "B", bands := ["L"] }] }] }] },
    { sizeFooter := 1
      chunks := [{ lumps := [{ streams := [{ id := "B", bands := ["L"] }] }] }] }]

/-- A recording of that lane, behind one other byte of a file. -/
def headedRecording : Descriptor where
  systems := [{ id := "S" }]
  bands := [{ id := "L" }]
  files := [{ lane := "Q", offset := 1 }]

/-- The lane is stepped, run and stepped again over a file whose last footer is missing: the run
fails there, and the step behind it reports the end. -/
theorem LanePlan.answers_before_and_after_failure_of_headedLane :
    ∃ plan started attached later final, build headedRecording headedLane = .ok plan ∧
      Lane.start MemorySink.kind plan (.ofBytes [0, 1, 2, 3, 4, 5, 6]) { world := () } =
        (.ok started, attached) ∧
      (started.answers [.step, .run, .step]).run MemorySink.kind attached =
        (([.ok (.cycle 3 1), .error (.source "Q" (.truncated 7 1 0)), .ok .endOfInput], later),
          final) ∧
      later.finished = true ∧ plan.file.offset + later.summary.bytes < later.position := by
  obtain ⟨plan, hplan, hoffset, hanswers⟩ : ∃ plan, build headedRecording headedLane = .ok plan ∧
      plan.file.offset = 1 ∧
      (match Lane.start MemorySink.kind plan (.ofBytes [0, 1, 2, 3, 4, 5, 6])
          { world := () } with
        | (.error _, _) => []
        | (.ok started, attached) =>
          ((started.answers [.step, .run, .step]).run MemorySink.kind attached).1.1) =
        [.ok (.cycle 3 1), .error (.source "Q" (.truncated 7 1 0)), .ok .endOfInput] :=
    ⟨_, rfl, rfl, by with_unfolding_all rfl⟩
  have hlength : plan.file.offset ≤ (Reader.ofBytes [0, 1, 2, 3, 4, 5, 6]).remaining.length := by
    rw [hoffset]
    decide
  obtain ⟨started, attached, hstart, hcalls⟩ :=
    answers_before_and_after_failure hplan (by exact List.cons_ne_nil _ _)
      (Reader.faultFree_ofBytes [0, 1, 2, 3, 4, 5, 6]) hlength MemorySink.kind_neverFails
      (Registry.sound_of_world ())
  obtain ⟨outcomes, later, final, hrun, hcourse⟩ := hcalls [.step, .run, .step]
  have hsame : outcomes =
      [.ok (.cycle 3 1), .error (.source "Q" (.truncated 7 1 0)), .ok .endOfInput] := by
    rw [ByteSource.ofBytes, hstart] at hanswers
    simpa only [hrun] using hanswers
  subst hsame
  obtain ⟨cycles, retries, hfailed⟩ :=
    hcourse.failed _ (List.mem_cons_of_mem _ List.mem_cons_self)
  refine ⟨plan, started, attached, later, final, hplan, hstart, hrun,
    hfailed.finished_iff.mpr ?_, hfailed.cut⟩
  -- The last answer is not the failure, so that there are retries.
  cases retries with
  | zero =>
    have hlast := congrArg List.getLast? hfailed.outcomes_eq
    rw [List.replicate_zero, List.getLast?_append] at hlast
    cases hlast
  | succ retries => exact Nat.succ_pos _

/-- A recording that is cut short comes to a clean end. Its lane reports the end behind the failure
and is finished, although a byte was read that belongs to no completed cycle. A converter fails for
it when it is run, but when it is run again, one lane after the other or by turns, it succeeds, and
the sink of the lane is finished. -/
theorem Lane.end_of_truncated_recording :
    (∃ plan started attached later final,
      LanePlan.build pairRecording (byteLane "Q" "B") = .ok plan ∧
      Lane.start MemorySink.kind plan (.ofBytes [5, 6, 7]) { world := () } =
        (.ok started, attached) ∧
      (started.answers [.step, .step, .step, .run]).run MemorySink.kind attached =
        (([.ok (.cycle 2 1), .error (.source "Q" (.truncated 3 1 0)), .ok .endOfInput,
          .ok .endOfInput], later), final) ∧
      later.finished = true ∧ plan.file.offset + later.summary.bytes = 2 ∧ later.position = 3) ∧
    ((openPair pairRecording [1, 2, 3, 4] [5, 6, 7]).runWith .sequential).1.outcome =
      .error (.source "Q" (.truncated 3 1 0)) ∧
    (((openPair pairRecording [1, 2, 3, 4] [5, 6, 7]).runWith .sequential).2.runWith
      .sequential).1.outcome = .ok [⟨"P", 2, 4, 2⟩, ⟨"Q", 1, 2, 1⟩] ∧
    (((openPair pairRecording [1, 2, 3, 4] [5, 6, 7]).runWith .sequential).2.runWith
      .sequential).2.registry.made.map (·.state.finished) = [true, true] ∧
    ((openPair pairRecording [1, 2, 3, 4] [5, 6, 7]).runWith (.parallel [])).1.outcome =
      .error (.source "Q" (.truncated 3 1 0)) ∧
    (((openPair pairRecording [1, 2, 3, 4] [5, 6, 7]).runWith (.parallel [])).2.runWith
      (.parallel [])).1.outcome = .ok [⟨"P", 2, 4, 2⟩, ⟨"Q", 1, 2, 1⟩] ∧
    (((openPair pairRecording [1, 2, 3, 4] [5, 6, 7]).runWith (.parallel [])).2.runWith
      (.parallel [])).2.registry.made.map (·.state.finished) = [true, true] := by
  refine ⟨⟨_, _, _, _, _, rfl, by with_unfolding_all rfl, by with_unfolding_all rfl, ?_, ?_, ?_⟩,
    ?_, ?_, ?_, ?_, ?_, ?_⟩ <;> with_unfolding_all rfl

end SampleDemux
