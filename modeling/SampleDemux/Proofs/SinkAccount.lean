import SampleDemux.Proofs.Isolation

/-!
# An account of the sinks

Sinks of any kind can be watched: each one is given a number when it is made, and an account is kept
of which sinks were made, which could not be made, and which were finished, in the order of these
deeds. Watching changes nothing: whatever a registry is called for, it answers the same. A sink
keeps its number, so the account tells which of the sinks were finished.
-/

namespace SampleDemux

/-- Something that is done with the sinks of a kind. -/
inductive Deed where
  /-- A sink is made for a stream and given the next number. -/
  | made (stream : String) (number : ℕ)
  /-- A sink cannot be made for a stream. -/
  | refused (stream : String) (cause : Cause)
  /-- A sink is finished, or cannot be finished. -/
  | finished (number : ℕ) (outcome : Except Cause Unit)

/-- A sink is asked for, for a stream. -/
def Deed.AsksFor (stream : String) : Deed → Prop
  | made other _ => other = stream
  | refused other _ => other = stream
  | finished .. => False

/-- What sinks of a kind share, with an account of them. -/
structure Logged (W : Type) where
  /-- What the sinks share. -/
  world : W
  /-- How many sinks were made. -/
  made : ℕ := 0
  /-- What was done with the sinks, in order. -/
  log : List Deed := []

variable {W S : Type}

/-- The same sinks with an account of them; each one keeps its number besides. -/
def SinkKind.logged (kind : SinkKind W S) : SinkKind (Logged W) (ℕ × S) where
  create stream shared :=
    match kind.create stream shared.world with
    | (.error cause, world) =>
      (.error cause, { shared with world, log := shared.log ++ [.refused stream cause] })
    | (.ok state, world) =>
      (.ok (shared.made, state),
        { world, made := shared.made + 1, log := shared.log ++ [.made stream shared.made] })
  consume sink sample record shared :=
    let (reply, state, world) := kind.consume sink.2 sample record shared.world
    (reply, (sink.1, state), { shared with world })
  finish sink shared :=
    let (outcome, state, world) := kind.finish sink.2 shared.world
    (outcome, (sink.1, state),
      { shared with world, log := shared.log ++ [.finished sink.1 outcome] })
  look part shared := kind.look part shared.world

namespace Registry

/-- What a registry is called for. Calls may come from any number of lanes; each one is served
before the next. -/
inductive Call where
  /-- The sink of a stream. -/
  | sink (stream : String)
  /-- The record of a stream, which is entered if there is none. -/
  | enter (record : StreamRecord)
  /-- The record of a stream, if there is one. -/
  | lookUp (stream : String)
  /-- The records of all streams. -/
  | list
  /-- To forget all sinks and records. -/
  | clear
  /-- To finish all sinks. -/
  | finishAll
  /-- To give a sample to a sink. -/
  | consume (number : ℕ) (sample : Sample) (record : StreamRecord)

/-- What a registry answers to a call. -/
inductive Answer where
  /-- The number of a sink, or why there is none. -/
  | sink (outcome : Except ConvertError ℕ)
  /-- The record that is entered. -/
  | entered (record : StreamRecord)
  /-- The record that was looked up, if there is one. -/
  | found (record : Option StreamRecord)
  /-- All records. -/
  | listed (records : List StreamRecord)
  /-- All sinks and records are forgotten. -/
  | cleared
  /-- Whether all sinks could be finished. -/
  | finished (outcome : Except ConvertError Unit)
  /-- What the sink said to the sample. -/
  | replied (reply : Reply)

/-- Serves a call. -/
def serve (kind : SinkKind W S) (registry : Registry W S) : Call → Answer × Registry W S
  | .sink stream =>
    (.sink (registry.sink kind stream).1, (registry.sink kind stream).2)
  | .enter record =>
    (.entered (registry.recordOrInsert record).1, (registry.recordOrInsert record).2)
  | .lookUp stream => (.found (registry.record? stream), registry)
  | .list => (.listed registry.recordList, registry)
  | .clear => (.cleared, registry.clear)
  | .finishAll => (.finished (registry.finishAll kind).1, (registry.finishAll kind).2)
  | .consume number sample record =>
    (.replied (registry.consume kind number sample record).1,
      (registry.consume kind number sample record).2)

/-- The answers to calls, one after the other. -/
def answers (kind : SinkKind W S) (registry : Registry W S) : List Call → List Answer
  | [] => []
  | call :: rest => (registry.serve kind call).1 :: answers kind (registry.serve kind call).2 rest

/-- A registry without the account of its sinks. -/
def plain (registry : Registry (Logged W) (ℕ × S)) : Registry W S where
  world := registry.world.world
  made := registry.made.map fun sink => ⟨sink.stream, sink.state.2⟩
  sinks := registry.sinks
  records := registry.records

section Plain

variable (kind : SinkKind W S) (registry : Registry (Logged W) (ℕ × S))

/-- A sink is given out in the same way without the account. -/
theorem sink_plain (stream : String) :
    registry.plain.sink kind stream =
      ((registry.sink kind.logged stream).1, (registry.sink kind.logged stream).2.plain) := by
  unfold sink
  cases hfound : registry.sinks.find? stream with
  | some number =>
    rw [show registry.plain.sinks.find? stream = some number from hfound]
  | none =>
    rw [show registry.plain.sinks.find? stream = none from hfound]
    have hcreate : registry.plain.world = registry.world.world := rfl
    simp only [SinkKind.logged, hcreate]
    rcases kind.create stream registry.world.world with ⟨cause | state, world⟩
    · rfl
    · simp [plain]

/-- A record is entered in the same way without the account. -/
theorem recordOrInsert_plain (record : StreamRecord) :
    registry.plain.recordOrInsert record =
      ((registry.recordOrInsert record).1, (registry.recordOrInsert record).2.plain) := by
  unfold recordOrInsert
  cases hfound : registry.records.find? record.id with
  | some entered => rw [show registry.plain.records.find? record.id = some entered from hfound]
  | none =>
    rw [show registry.plain.records.find? record.id = none from hfound]
    rfl

/-- A sink takes a sample in the same way without the account. -/
theorem consume_plain (number : ℕ) (sample : Sample) (record : StreamRecord) :
    registry.plain.consume kind number sample record =
      ((registry.consume kind.logged number sample record).1,
        (registry.consume kind.logged number sample record).2.plain) := by
  unfold consume
  cases hmade : registry.made[number]? with
  | none => simp [plain, hmade]
  | some sink => simp [plain, hmade, SinkKind.logged, List.map_set]

/-- A sink is finished in the same way without the account. -/
theorem finish_plain (number : ℕ) :
    registry.plain.finish kind number =
      ((registry.finish kind.logged number).1, (registry.finish kind.logged number).2.plain) := by
  unfold finish
  cases hmade : registry.made[number]? with
  | none => simp [plain, hmade]
  | some sink => simp [plain, hmade, SinkKind.logged, List.map_set]

/-- Sinks are finished in the same way without the account. -/
theorem finishEntries_plain (entries : List (String × ℕ)) :
    registry.plain.finishEntries kind entries =
      ((registry.finishEntries kind.logged entries).1,
        (registry.finishEntries kind.logged entries).2.plain) := by
  induction entries generalizing registry with
  | nil => rfl
  | cons entry entries ih =>
    unfold finishEntries
    rw [finish_plain]
    rcases registry.finish kind.logged entry.2 with ⟨cause | _, later⟩
    · rfl
    · exact ih later

/-- A call is served in the same way without the account. -/
theorem serve_plain (call : Call) :
    registry.plain.serve kind call =
      ((registry.serve kind.logged call).1, (registry.serve kind.logged call).2.plain) := by
  cases call with
  | sink stream => simp only [serve, sink_plain]
  | enter record => simp only [serve, recordOrInsert_plain]
  | lookUp stream => rfl
  | list => rfl
  | clear => rfl
  | finishAll =>
    have hfinish := finishEntries_plain kind registry registry.sinks.entries
    simp only [serve, finishAll]
    rw [show registry.plain.sinks = registry.sinks from rfl, hfinish]
  | consume number sample record => simp only [serve, consume_plain]

/-- Calls are answered in the same way without the account. -/
theorem answers_plain (calls : List Call) :
    registry.plain.answers kind calls = registry.answers kind.logged calls := by
  induction calls generalizing registry with
  | nil => rfl
  | cons call calls ih =>
    rw [answers, answers, serve_plain]
    exact congrArg _ (ih _)

end Plain

/-- Sinks are finished in order, up to and including the first one that cannot be. -/
inductive Finishing (sinks : List (String × ℕ)) : Except ConvertError Unit → List Deed → Prop
  /-- All of them can be finished. -/
  | all : Finishing sinks (.ok ()) (sinks.map fun sink => .finished sink.2 (.ok ()))
  /-- One of them cannot be finished. -/
  | upTo {before after : List (String × ℕ)} {stream : String} {number : ℕ} {cause : Cause}
      (hsinks : sinks = before ++ (stream, number) :: after) :
      Finishing sinks (.error (.sink stream cause))
        ((before.map fun sink => .finished sink.2 (.ok ())) ++ [.finished number (.error cause)])

/-- One more sink is finished first. -/
theorem Finishing.cons {sinks : List (String × ℕ)} {outcome : Except ConvertError Unit}
    {deeds : List Deed} (h : Finishing sinks outcome deeds) (sink : String × ℕ) :
    Finishing (sink :: sinks) outcome (.finished sink.2 (.ok ()) :: deeds) := by
  cases h with
  | all => exact .all
  | @upTo before after stream number cause hsinks =>
    have hlonger : sink :: sinks = (sink :: before) ++ (stream, number) :: after :=
      congrArg (sink :: ·) hsinks
    exact .upTo hlonger

/-- To finish sinks, none is asked for. -/
theorem Finishing.not_asksFor {sinks : List (String × ℕ)} {outcome : Except ConvertError Unit}
    {deeds : List Deed} (h : Finishing sinks outcome deeds) {deed : Deed} (hdeed : deed ∈ deeds)
    (stream : String) : ¬deed.AsksFor stream := by
  have hend : ∃ number outcome, deed = .finished number outcome := by
    cases h with
    | all =>
      obtain ⟨sink, -, rfl⟩ := List.mem_map.mp hdeed
      exact ⟨_, _, rfl⟩
    | upTo =>
      rcases List.mem_append.mp hdeed with hdeed | hdeed
      · obtain ⟨sink, -, rfl⟩ := List.mem_map.mp hdeed
        exact ⟨_, _, rfl⟩
      · exact ⟨_, _, List.mem_singleton.mp hdeed⟩
  obtain ⟨number, outcome, rfl⟩ := hend
  exact id

/-- Every sink keeps its number, and all of them were counted. -/
structure Numbered (registry : Registry (Logged W) (ℕ × S)) : Prop where
  /-- Sinks keep their places. -/
  numbers : ∀ (number : ℕ) (sink : MadeSink (ℕ × S)),
    registry.made[number]? = some sink → sink.state.1 = number
  /-- Their number is known. -/
  count : registry.world.made = registry.made.length

section Numbered

variable (kind : SinkKind W S) {registry : Registry (Logged W) (ℕ × S)}

/-- A sink that changes keeps its number. -/
theorem Numbered.of_set (h : registry.Numbered) {number : ℕ} {sink : MadeSink (ℕ × S)}
    (hsink : registry.made[number]? = some sink) (state : S) {world : Logged W}
    (hworld : world.made = registry.world.made) :
    Numbered { registry with
      world, made := registry.made.set number { sink with state := (sink.state.1, state) } } := by
  refine ⟨fun place changed hchanged => ?_, ?_⟩
  · rw [List.getElem?_set] at hchanged
    split at hchanged
    · rename_i hsame
      split at hchanged
      · cases hchanged
        rw [← hsame]
        exact h.numbers number sink hsink
      · cases hchanged
    · exact h.numbers place changed hchanged
  · rw [List.length_set]
    exact hworld.trans h.count

/-- A sink that is made gets the next number. -/
theorem Numbered.of_made (h : registry.Numbered) (stream : String) (state : S)
    (sinks : Catalog String ℕ) {world : Logged W}
    (hworld : world.made = registry.made.length + 1) :
    Numbered { registry with
      world
      made := registry.made ++ [⟨stream, (registry.made.length, state)⟩]
      sinks } := by
  refine ⟨fun number sink hsink => ?_, by rw [List.length_append]; exact hworld⟩
  by_cases hbound : number < registry.made.length
  · rw [List.getElem?_append_left hbound] at hsink
    exact h.numbers number sink hsink
  · have hlast : number = registry.made.length := by
      have hplace := (List.getElem?_eq_some_iff.mp hsink).1
      rw [List.length_append, List.length_singleton] at hplace
      omega
    rw [hlast, List.getElem?_concat_length] at hsink
    cases hsink
    exact hlast.symm

/-- A sink that takes a sample keeps its number. -/
theorem Numbered.consume (h : registry.Numbered) (number : ℕ) (sample : Sample)
    (record : StreamRecord) :
    (registry.consume kind.logged number sample record).2.Numbered ∧
      (registry.consume kind.logged number sample record).2.world.log = registry.world.log := by
  unfold Registry.consume
  split
  · exact ⟨h, rfl⟩
  · rename_i sink hsink
    exact ⟨h.of_set hsink _ rfl, rfl⟩

/-- A sink that is finished keeps its number, and its end is put down. -/
theorem Numbered.finish (h : registry.Numbered) {number : ℕ}
    (hbound : number < registry.made.length) :
    (registry.finish kind.logged number).2.Numbered ∧
      (registry.finish kind.logged number).2.world.log =
        registry.world.log ++ [.finished number (registry.finish kind.logged number).1] := by
  have hsink := List.getElem?_eq_getElem hbound
  have hnumber := h.numbers number _ hsink
  unfold Registry.finish
  rw [hsink]
  refine ⟨h.of_set hsink _ rfl, ?_⟩
  dsimp only [SinkKind.logged]
  rw [hnumber]

/-- Sinks are finished in order, which is put down. -/
theorem Numbered.finishEntries (h : registry.Numbered) {sinks : List (String × ℕ)}
    (hbound : ∀ sink ∈ sinks, sink.2 < registry.made.length) :
    (registry.finishEntries kind.logged sinks).2.Numbered ∧ ∃ deeds,
      Finishing sinks (registry.finishEntries kind.logged sinks).1 deeds ∧
      (registry.finishEntries kind.logged sinks).2.world.log = registry.world.log ++ deeds := by
  induction sinks generalizing registry with
  | nil => exact ⟨h, [], .all, (List.append_nil _).symm⟩
  | cons sink sinks ih =>
    rcases sink with ⟨stream, number⟩
    rcases List.forall_mem_cons.mp hbound with ⟨hfirst, hrest⟩
    have hfinish := h.finish kind hfirst
    have hsame := SameStreams.finish kind.logged registry number
    unfold Registry.finishEntries
    rcases hone : registry.finish kind.logged number with ⟨cause | _, later⟩
    · rw [hone] at hfinish
      have hstop : (stream, number) :: sinks = [] ++ (stream, number) :: sinks := rfl
      exact ⟨hfinish.1, _, .upTo hstop, hfinish.2⟩
    · rw [hone] at hfinish hsame
      -- Finishing makes no sinks and takes none away, so the others are still there.
      have hlength : later.made.length = registry.made.length := by
        simpa using congrArg List.length hsame.made
      obtain ⟨hlater, deeds, hdeeds, hlog⟩ := ih hfinish.1 fun sink hsink => by
        rw [hlength]
        exact hrest sink hsink
      refine ⟨hlater, _, hdeeds.cons (stream, number), ?_⟩
      rw [hlog, hfinish.2, List.append_assoc]
      rfl

end Numbered

end Registry

end SampleDemux
