import SampleDemux.Proofs.Attachment

/-!
# Making sinks for streams in order

When records are bound one after the other, each stream that has no sink yet gets one, and the first
sink that cannot be made ends it. Which streams have sinks already, and what the sinks share, is all
that this depends on.
-/

namespace SampleDemux

variable {W S : Type}

namespace SinkKind

variable (kind : SinkKind W S)

/-- Makes the sinks of streams, each when it is first asked for, up to the first that cannot be
made. Some of the streams may be known to have one. -/
def makeAll : List String → List String → W → Except ConvertError Unit × W
  | [], _, world => (.ok (), world)
  | stream :: rest, known, world =>
    if stream ∈ known then makeAll rest known world
    else
      match kind.create stream world with
      | (.error cause, world) => (.error (.sink stream cause), world)
      | (.ok _, world) => makeAll rest (known ++ [stream]) world

section Cons

variable {kind} {stream : String} {streams known : List String} {world between : W}

/-- A stream that is known needs no sink. -/
theorem makeAll_known (h : stream ∈ known) :
    kind.makeAll (stream :: streams) known world = kind.makeAll streams known world := by
  rw [makeAll, if_pos h]

/-- A stream with a new sink is known then. -/
theorem makeAll_new {state : S} (h : stream ∉ known)
    (hcreate : kind.create stream world = (.ok state, between)) :
    kind.makeAll (stream :: streams) known world =
      kind.makeAll streams (known ++ [stream]) between := by
  rw [makeAll, if_neg h, hcreate]

/-- A sink that cannot be made is the last one that is tried. -/
theorem makeAll_failed {cause : Cause} (h : stream ∉ known)
    (hcreate : kind.create stream world = (.error cause, between)) :
    kind.makeAll (stream :: streams) known world = (.error (.sink stream cause), between) := by
  rw [makeAll, if_neg h, hcreate]

end Cons

/-- Which streams are known makes a difference, and not how. -/
theorem makeAll_congr (streams : List String) {known others : List String}
    (h : ∀ stream, stream ∈ known ↔ stream ∈ others) (world : W) :
    kind.makeAll streams known world = kind.makeAll streams others world := by
  induction streams generalizing known others world with
  | nil => rfl
  | cons stream streams ih =>
    by_cases hknown : stream ∈ known
    · rw [makeAll_known hknown, makeAll_known ((h stream).mp hknown), ih h]
    have hother : stream ∉ others := fun hother => hknown ((h stream).mpr hother)
    rcases hcreate : kind.create stream world with ⟨cause | state, between⟩
    · rw [makeAll_failed hknown hcreate, makeAll_failed hother hcreate]
    · rw [makeAll_new hknown hcreate, makeAll_new hother hcreate]
      refine ih (fun other => ?_) between
      rw [List.mem_append, List.mem_append, h other]

/-- Sinks of further streams are made when all the others could be made. -/
theorem makeAll_append {first known : List String} {world : W}
    (hfirst : (kind.makeAll first known world).1 = .ok ()) (second : List String) :
    kind.makeAll (first ++ second) known world =
      kind.makeAll second (known ++ first) (kind.makeAll first known world).2 := by
  induction first generalizing known world with
  | nil =>
    rw [List.append_nil]
    rfl
  | cons stream first ih =>
    rw [List.cons_append]
    by_cases hknown : stream ∈ known
    · rw [makeAll_known hknown] at hfirst ⊢
      rw [makeAll_known hknown, ih hfirst]
      exact makeAll_congr kind second (mem_append_cons_iff hknown) _
    rcases hcreate : kind.create stream world with ⟨cause | state, between⟩
    · rw [makeAll_failed hknown hcreate] at hfirst
      cases hfirst
    · rw [makeAll_new hknown hcreate] at hfirst ⊢
      rw [makeAll_new hknown hcreate, ih hfirst, List.append_assoc, List.singleton_append]

/-- Making sinks fails at the first stream that is not known, has no sink and cannot get one. -/
inductive Misses (streams known : List String) (world : W) : ConvertError → Prop
  /-- The stream stands behind others that have sinks. -/
  | stream {before after : List String} {stream : String} {cause : Cause}
      (hstreams : streams = before ++ stream :: after)
      (hbefore : (kind.makeAll before known world).1 = .ok ())
      (hnew : stream ∉ known ++ before)
      (hcause : (kind.create stream (kind.makeAll before known world).2).1 = .error cause) :
      Misses streams known world (.sink stream cause)

/-- A sink that is missing is the error of making all. -/
theorem Misses.makeAll {streams known : List String} {world : W} {error : ConvertError}
    (h : kind.Misses streams known world error) :
    (kind.makeAll streams known world).1 = .error error := by
  cases h with
  | @stream before after stream cause hstreams hbefore hnew hcause =>
    rcases hcreate : kind.create stream (kind.makeAll before known world).2 with ⟨outcome, between⟩
    rw [hcreate] at hcause
    obtain rfl : outcome = .error cause := hcause
    rw [hstreams, makeAll_append kind hbefore, makeAll_failed hnew hcreate]

/-- Either all sinks can be made, or one is missing. -/
theorem makes_or_misses (streams known : List String) (world : W) :
    (kind.makeAll streams known world).1 = .ok () ∨
      ∃ error, kind.Misses streams known world error := by
  induction streams using List.reverseRecOn with
  | nil => exact .inl rfl
  | append_singleton streams stream ih =>
    rcases ih with hmade | ⟨error, ⟨hstreams, hbefore, hnew, hcause⟩⟩
    · rw [makeAll_append kind hmade]
      by_cases hknown : stream ∈ known ++ streams
      · rw [makeAll_known hknown]
        exact .inl rfl
      rcases hcreate : kind.create stream (kind.makeAll streams known world).2 with
        ⟨cause | state, between⟩
      · exact .inr ⟨_, .stream rfl hmade hknown (congrArg Prod.fst hcreate)⟩
      · rw [makeAll_new hknown hcreate]
        exact .inl rfl
    · rename_i before after other cause
      have hlonger : streams ++ [stream] = before ++ other :: (after ++ [stream]) := by
        rw [hstreams, List.append_assoc, List.cons_append]
      exact .inr ⟨_, .stream hlonger hbefore hnew hcause⟩

end SinkKind

namespace Registry

/-- A sound registry in which exactly the known streams have sinks. -/
structure Knows (registry : Registry W S) (known : List String) (world : W) : Prop where
  /-- Every stream's number is that of a sink made for it. -/
  sound : registry.Sound
  /-- Known streams have sinks, and no others. -/
  known : ∀ stream, stream ∈ known ↔ ∃ number, registry.sinks.find? stream = some number
  /-- What sinks share. -/
  world : registry.world = world

variable {kind : SinkKind W S} {registry : Registry W S} {known : List String} {world : W}

/-- Which streams are known makes a difference, and not how. -/
theorem Knows.congr (h : registry.Knows known world) {others : List String}
    (hothers : ∀ stream, stream ∈ known ↔ stream ∈ others) : registry.Knows others world :=
  ⟨h.sound, fun stream => (hothers stream).symm.trans (h.known stream), h.world⟩

/-- Entering a record leaves the sinks. -/
theorem Knows.recordOrInsert (h : registry.Knows known world) (record : StreamRecord) :
    (registry.recordOrInsert record).2.Knows known world ∧
      (registry.recordOrInsert record).1.id = record.id := by
  obtain ⟨entered, later, hrecord, hsound, -, hfound⟩ := recordOrInsert_of_sound h.sound record
  have hsinks : (registry.recordOrInsert record).2.sinks = registry.sinks ∧
      (registry.recordOrInsert record).2.world = registry.world := by
    unfold Registry.recordOrInsert
    split <;> exact ⟨rfl, rfl⟩
  rw [hrecord] at hsinks ⊢
  exact ⟨⟨hsound, fun stream => by rw [hsinks.1]; exact h.known stream, hsinks.2.trans h.world⟩,
    hsound.records _ _ hfound⟩

/-- A stream that is known has its sink. -/
theorem Knows.sink_known (h : registry.Knows known world) {stream : String}
    (hknown : stream ∈ known) : forget (registry.sink kind stream) = (.ok (), registry) := by
  obtain ⟨number, hnumber⟩ := (h.known stream).mp hknown
  unfold sink
  rw [hnumber]
  rfl

/-- A stream that is not known has no sink. -/
theorem Knows.find?_eq_none (h : registry.Knows known world) {stream : String}
    (hnew : stream ∉ known) : registry.sinks.find? stream = none :=
  Option.eq_none_iff_forall_ne_some.mpr fun number hnumber =>
    hnew ((h.known stream).mpr ⟨number, hnumber⟩)

/-- A stream that is not known has no sink if it cannot be made. -/
theorem Knows.sink_failed (h : registry.Knows known world) {stream : String}
    (hnew : stream ∉ known) {cause : Cause} {between : W}
    (hcreate : kind.create stream world = (.error cause, between)) :
    ∃ later, forget (registry.sink kind stream) = (.error (.sink stream cause), later) := by
  unfold sink
  rw [h.find?_eq_none hnew, h.world, hcreate]
  exact ⟨_, rfl⟩

/-- A stream that is not known gets its sink. -/
theorem Knows.sink_made (h : registry.Knows known world) {stream : String}
    (hnew : stream ∉ known) {state : S} {between : W}
    (hcreate : kind.create stream world = (.ok state, between)) :
    ∃ later, forget (registry.sink kind stream) = (.ok (), later) ∧
      later.Knows (known ++ [stream]) between := by
  have hnone := h.find?_eq_none hnew
  have hsink : registry.sink kind stream = (.ok registry.made.length,
      { registry with
        world := between
        made := registry.made ++ [⟨stream, state⟩]
        sinks := registry.sinks.insert stream registry.made.length }) := by
    unfold sink
    rw [hnone, h.world, hcreate]
  refine ⟨_, forget_of_ok hsink, (h.sound.sink_ok hsink).1, fun other => ?_, rfl⟩
  rw [List.mem_append, List.mem_singleton, h.known other]
  by_cases hother : other = stream
  · rw [hother]
    exact ⟨fun _ => ⟨_, Catalog.find?_insert_self ..⟩, fun _ => .inr rfl⟩
  · simp only [Catalog.find?_insert_of_ne _ hother, hother, or_false]

variable (kind) in
/-- Binding records makes the sinks of their streams. -/
theorem Knows.bindAll (h : registry.Knows known world) (records : List StreamRecord) :
    (bindAll kind records registry).1 = (kind.makeAll (records.map (·.id)) known world).1 ∧
      ((kind.makeAll (records.map (·.id)) known world).1 = .ok () →
        (bindAll kind records registry).2.Knows (known ++ records.map (·.id))
          (kind.makeAll (records.map (·.id)) known world).2) := by
  induction records generalizing registry known world with
  | nil =>
    rw [List.map_nil, List.append_nil]
    exact ⟨rfl, fun _ => h⟩
  | cons record records ih =>
    rcases h.recordOrInsert record with ⟨hentered, hid⟩
    rw [SampleDemux.bindAll, hid, List.map_cons]
    by_cases hknown : record.id ∈ known
    · rw [hentered.sink_known hknown, SinkKind.makeAll_known hknown]
      have hlater := ih hentered
      exact ⟨hlater.1, fun hmade => (hlater.2 hmade).congr (mem_append_cons_iff hknown)⟩
    rcases hcreate : kind.create record.id world with ⟨cause | state, between⟩
    · obtain ⟨later, hsink⟩ := hentered.sink_failed hknown hcreate
      rw [SinkKind.makeAll_failed hknown hcreate, hsink]
      refine ⟨rfl, fun hmade => ?_⟩
      cases hmade
    · obtain ⟨later, hsink, hknows⟩ := hentered.sink_made hknown hcreate
      rw [SinkKind.makeAll_new hknown hcreate, hsink]
      have hlater := ih hknows
      rw [List.append_assoc, List.singleton_append] at hlater
      exact hlater

/-- A registry without streams knows none. -/
theorem Knows.of_empty {registry : Registry W S} (hsinks : registry.sinks = {})
    (hrecords : registry.records = {}) : registry.Knows [] registry.world := by
  refine ⟨(Consistent.of_empty hsinks hrecords).sound, fun stream => ?_, rfl⟩
  rw [hsinks]
  simp [Catalog.find?]

end Registry

end SampleDemux
