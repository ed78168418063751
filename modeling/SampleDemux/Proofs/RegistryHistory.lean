import SampleDemux.Proofs.CallHistory
import SampleDemux.Proofs.CatalogOrder
import SampleDemux.Proofs.Sequences

/-!
# The history of a registry

What a registry answers follows from the calls and answers since it was last cleared: a stream that
was given a sink is given the same one again, and no other stream is; a record that was entered
stays the record of its stream; and finishing goes through the sinks that were given out. So there
is at most one sink and one record for a stream at any time, whoever calls and in whatever order.
-/

namespace SampleDemux

variable {W S : Type}

namespace Registry

/-- What a registry holds is what its past explains. -/
structure Agrees (registry : Registry (Logged W) (ℕ × S)) (past : List Entry) : Prop where
  /-- Sinks are kept in the order of their streams. -/
  sinksAscend : registry.sinks.Ascending
  /-- Records are kept in the order of their streams. -/
  recordsAscend : registry.records.Ascending
  /-- A stream has the sink that it was given since the registry was last cleared. -/
  sinks : ∀ stream number, registry.sinks.find? stream = some number ↔
    (stream, number) ∈ given (sinceClear past)
  /-- A stream has the record that was offered first since then. -/
  records : ∀ stream, registry.records.find? stream = firstOffered past stream
  /-- Every sink that was ever given to a stream was made for it. -/
  made : ∀ stream number, (stream, number) ∈ given past →
    (registry.made[number]?).map (·.stream) = some stream
  /-- A sink is newer than all that were given before the registry was last cleared. -/
  newer : ∀ old ∈ given (untilClear past), ∀ pair ∈ given (sinceClear past), old.2 < pair.2
  /-- Every sink keeps its number. -/
  numbered : registry.Numbered

namespace Agrees

variable {kind : SinkKind W S} {registry later : Registry (Logged W) (ℕ × S)} {past : List Entry}
  {entry : Entry}

/-- A new registry has no past. -/
theorem new (world : W) : Agrees ({ world := { world } } : Registry (Logged W) (ℕ × S)) [] where
  sinksAscend := Catalog.ascending_empty
  recordsAscend := Catalog.ascending_empty
  sinks _ _ := by simp [Catalog.find?, given, sinceClear]
  records _ := rfl
  made _ _ h := by cases h
  newer _ h := by cases h
  numbered := ⟨fun _ _ h => (by cases h), rfl⟩

/-- Given sinks are there. -/
theorem lt_length (h : Agrees registry past) {stream : String} {number : ℕ}
    (hgiven : (stream, number) ∈ given past) : number < registry.made.length := by
  have hmade := h.made stream number hgiven
  by_contra hbound
  rw [List.getElem?_eq_none (Nat.le_of_not_lt hbound)] at hmade
  cases hmade

/-- What was given since the registry was last cleared was given. -/
theorem mem_given_of_sinceClear {pair : String × ℕ} (h : pair ∈ given (sinceClear past)) :
    pair ∈ given past := by
  rw [← untilClear_append_sinceClear past, given, List.filterMap_append]
  exact List.mem_append_right _ h

/-- A registry that gives out and takes nothing new goes on as before. -/
theorem of_sameStreams (h : Agrees registry past) (hsame : registry.SameStreams later)
    (hnumbered : later.Numbered) (hentry : entry.call.clears = false)
    (hgiven : ∀ stream number, entry.given? = some (stream, number) →
      registry.sinks.find? stream = some number)
    (hoffered : ∀ record, entry.offered? = some record →
      ∃ found, registry.records.find? record.id = some found) :
    Agrees later (past ++ [entry]) where
  sinksAscend := hsame.sinks ▸ h.sinksAscend
  recordsAscend := hsame.records ▸ h.recordsAscend
  sinks stream number := by
    rw [sinceClear_concat hentry, mem_given_concat, hsame.sinks, ← h.sinks]
    exact ⟨.inl, fun hfound => hfound.elim id (hgiven stream number)⟩
  records stream := by
    rw [firstOffered_concat hentry, hsame.records, ← h.records]
    cases hrecord : entry.offered? with
    | none => rw [Option.filter_none, Option.or_none]
    | some record =>
      obtain ⟨found, hfound⟩ := hoffered record hrecord
      by_cases hid : record.id = stream
      · rw [← hid, hfound]
        rfl
      · rw [Option.filter_some, if_neg (by simpa using hid), Option.or_none]
  made stream number hmem := by
    rw [← List.getElem?_map, hsame.made, List.getElem?_map]
    refine h.made stream number ((mem_given_concat.mp hmem).elim id fun hlast => ?_)
    exact mem_given_of_sinceClear ((h.sinks _ _).mp (hgiven _ _ hlast))
  newer old hold pair hpair := by
    rw [untilClear_concat hentry] at hold
    rw [sinceClear_concat hentry, mem_given_concat] at hpair
    refine h.newer old hold pair (hpair.elim id fun hlast => ?_)
    exact (h.sinks _ _).mp (hgiven _ _ hlast)
  numbered := hnumbered

/-- A registry that gives out no sink and is offered no record goes on as before. -/
theorem of_quiet (h : Agrees registry past) (hsame : registry.SameStreams later)
    (hnumbered : later.Numbered) (hentry : entry.call.clears = false)
    (hgiven : entry.given? = none) (hoffered : entry.offered? = none) :
    Agrees later (past ++ [entry]) := by
  refine h.of_sameStreams hsame hnumbered hentry (fun stream number hpair => ?_)
    fun record hnew => ?_
  · rw [hgiven] at hpair
    cases hpair
  · rw [hoffered] at hnew
    cases hnew

/-- A registry that was cleared starts anew. -/
theorem clear (h : Agrees registry past) (hentry : entry.call.clears = true)
    (hgiven : entry.given? = none) : Agrees registry.clear (past ++ [entry]) where
  sinksAscend := Catalog.ascending_empty
  recordsAscend := Catalog.ascending_empty
  sinks _ _ := by
    rw [sinceClear_concat_clear hentry]
    simp [Catalog.find?, given, Registry.clear]
  records _ := by
    rw [firstOffered, sinceClear_concat_clear hentry]
    rfl
  made stream number hmem := by
    rw [mem_given_concat, hgiven] at hmem
    exact h.made stream number (hmem.resolve_right (Option.some_ne_none _).symm)
  newer _ _ _ hpair := by
    rw [sinceClear_concat_clear hentry] at hpair
    cases hpair
  numbered := ⟨h.numbered.numbers, h.numbered.count⟩

/-- A stream that had no sink has the one that was made for it. -/
theorem made_sink (h : Agrees registry past) {stream : String} {state : S} {world : Logged W}
    (hnone : registry.sinks.find? stream = none) (hworld : world.made = registry.made.length + 1)
    (hentry : entry.call.clears = false)
    (hgiven : entry.given? = some (stream, registry.made.length))
    (hoffered : entry.offered? = none) :
    Agrees { registry with
      world
      made := registry.made ++ [⟨stream, (registry.made.length, state)⟩]
      sinks := registry.sinks.insert stream registry.made.length } (past ++ [entry]) where
  sinksAscend := h.sinksAscend.insert stream _
  recordsAscend := h.recordsAscend
  sinks other number := by
    rw [sinceClear_concat hentry, mem_given_concat, hgiven, ← h.sinks, Option.some_inj,
      Prod.mk.injEq]
    by_cases hother : other = stream
    · rw [hother, Catalog.find?_insert_self, hnone, Option.some_inj]
      simp
    · rw [Catalog.find?_insert_of_ne _ hother]
      simp [Ne.symm hother]
  records other := by
    rw [firstOffered_concat hentry, hoffered, Option.filter_none, Option.or_none]
    exact h.records other
  made other number hmem := by
    rcases mem_given_concat.mp hmem with hbefore | hlast
    · rw [List.getElem?_append_left (h.lt_length hbefore)]
      exact h.made other number hbefore
    · cases hgiven.symm.trans hlast
      rw [List.getElem?_concat_length]
      rfl
  newer old hold pair hpair := by
    rw [untilClear_concat hentry] at hold
    rw [sinceClear_concat hentry, mem_given_concat, hgiven, Option.some_inj] at hpair
    rcases hpair with hbefore | rfl
    · exact h.newer old hold pair hbefore
    · have hbefore : (old.1, old.2) ∈ given past := by
        rw [← untilClear_append_sinceClear past, given, List.filterMap_append]
        exact List.mem_append_left _ hold
      exact h.lt_length hbefore
  numbered := h.numbered.of_made stream state _ hworld

/-- A stream that had no record has the one that was offered. -/
theorem new_record (h : Agrees registry past) {record : StreamRecord}
    (hnone : registry.records.find? record.id = none) (hentry : entry.call.clears = false)
    (hgiven : entry.given? = none) (hoffered : entry.offered? = some record) :
    Agrees { registry with records := registry.records.insert record.id record }
      (past ++ [entry]) where
  sinksAscend := h.sinksAscend
  recordsAscend := h.recordsAscend.insert record.id record
  sinks stream number := by
    rw [sinceClear_concat hentry, mem_given_concat, hgiven, ← h.sinks]
    exact ⟨.inl, fun hfound => hfound.resolve_right (Option.some_ne_none _).symm⟩
  records stream := by
    rw [firstOffered_concat hentry, hoffered, ← h.records]
    by_cases hid : stream = record.id
    · rw [hid, Catalog.find?_insert_self, hnone, Option.none_or, Option.filter_some,
        if_pos (beq_self_eq_true _)]
    · rw [Catalog.find?_insert_of_ne _ hid, Option.filter_some,
        if_neg (by simpa using Ne.symm hid), Option.or_none]
  made stream number hmem := by
    rw [mem_given_concat, hgiven] at hmem
    exact h.made stream number (hmem.resolve_right (Option.some_ne_none _).symm)
  newer old hold pair hpair := by
    rw [untilClear_concat hentry] at hold
    rw [sinceClear_concat hentry, mem_given_concat, hgiven] at hpair
    exact h.newer old hold pair (hpair.resolve_right (Option.some_ne_none _).symm)
  numbered := ⟨h.numbered.numbers, h.numbered.count⟩

variable (kind)

/-- A call that is served is put down with its answer and with what was added to the account. -/
theorem entry_eq {call : Call} {answer : Answer} {deeds : List Deed}
    (hserve : registry.serve kind.logged call = (answer, later))
    (hlog : later.world.log = registry.world.log ++ deeds) :
    registry.entry kind call = ⟨call, answer, deeds⟩ := by
  rw [Registry.entry, hserve, hlog, List.drop_left]

/-- A stream asks for its sink. -/
theorem serve_sink (h : Agrees registry past) (stream : String) :
    Explained past (registry.entry kind (.sink stream)) ∧
      Agrees (registry.serve kind.logged (.sink stream)).2
        (past ++ [registry.entry kind (.sink stream)]) := by
  cases hfound : registry.sinks.find? stream with
  | some number =>
    have hserve : registry.serve kind.logged (.sink stream) = (.sink (.ok number), registry) := by
      simp only [serve, sink, hfound]
    rw [entry_eq kind hserve (List.append_nil _).symm, hserve]
    refine ⟨.known ((h.sinks _ _).mp hfound), h.of_sameStreams (.refl _) h.numbered rfl ?_
      (by simp [Entry.offered?])⟩
    rintro other found ⟨⟩
    exact hfound
  | none =>
    have hnew (other : ℕ) : (stream, other) ∉ given (sinceClear past) := fun hgiven => by
      rw [(h.sinks _ _).mpr hgiven] at hfound
      cases hfound
    rcases hcreate : kind.create stream registry.world.world with ⟨cause | state, world⟩
    · have hserve : registry.serve kind.logged (.sink stream) =
          (.sink (.error (.sink stream cause)),
            { registry with world := { registry.world with
                world, log := registry.world.log ++ [.refused stream cause] } }) := by
        simp only [serve, sink, hfound, SinkKind.logged, hcreate]
      rw [entry_eq kind hserve rfl, hserve]
      exact ⟨.refused hnew, h.of_quiet ⟨rfl, rfl, rfl⟩ ⟨h.numbered.numbers, h.numbered.count⟩
        rfl rfl rfl⟩
    · have hserve : registry.serve kind.logged (.sink stream) =
          (.sink (.ok registry.made.length),
            { registry with
              world := {
                world
                made := registry.world.made + 1
                log := registry.world.log ++ [.made stream registry.made.length] }
              made := registry.made ++ [⟨stream, (registry.made.length, state)⟩]
              sinks := registry.sinks.insert stream registry.made.length }) := by
        simp only [serve, sink, hfound, SinkKind.logged, hcreate, h.numbered.count]
      rw [entry_eq kind hserve rfl, hserve]
      exact ⟨.made hnew, h.made_sink hfound (congrArg (· + 1) h.numbered.count) rfl rfl rfl⟩

/-- A record is offered. -/
theorem serve_enter (h : Agrees registry past) (record : StreamRecord) :
    Explained past (registry.entry kind (.enter record)) ∧
      Agrees (registry.serve kind.logged (.enter record)).2
        (past ++ [registry.entry kind (.enter record)]) := by
  have hentered : Explained past _ := .entered record
  rw [← h.records] at hentered
  cases hfound : registry.records.find? record.id with
  | some entered =>
    have hserve : registry.serve kind.logged (.enter record) = (.entered entered, registry) := by
      simp only [serve, recordOrInsert, hfound]
    rw [hfound] at hentered
    rw [entry_eq kind hserve (List.append_nil _).symm, hserve]
    refine ⟨hentered, h.of_sameStreams (.refl _) h.numbered rfl (by simp [Entry.given?]) ?_⟩
    rintro other ⟨⟩
    exact ⟨entered, hfound⟩
  | none =>
    have hserve : registry.serve kind.logged (.enter record) = (.entered record,
        { registry with records := registry.records.insert record.id record }) := by
      simp only [serve, recordOrInsert, hfound]
    rw [hfound] at hentered
    rw [entry_eq kind hserve (List.append_nil _).symm, hserve]
    exact ⟨hentered, h.new_record hfound rfl rfl rfl⟩

/-- The records of all streams are listed in order. -/
theorem explained_list (h : Agrees registry past) :
    Explained past ⟨.list, .listed registry.recordList, []⟩ := by
  have hentry {entry : String × StreamRecord} (hmem : entry ∈ registry.records.entries) :
      registry.records.find? entry.2.id = some entry.2 ∧ entry.2.id = entry.1 := by
    have hfound := h.recordsAscend.mem_iff.mp hmem
    have hid : entry.2.id = entry.1 := by
      rw [h.records, firstOffered] at hfound
      simpa using List.find?_some hfound
    exact ⟨hid ▸ hfound, hid⟩
  refine .listed (List.pairwise_map.mpr ?_) fun record => ?_
  · refine h.recordsAscend.imp_of_mem fun hfirst hsecond hless => ?_
    rw [(hentry hfirst).2, (hentry hsecond).2]
    exact hless
  · rw [← h.records]
    constructor
    · intro hlisted
      obtain ⟨entry, hmem, rfl⟩ := List.mem_map.mp hlisted
      exact (hentry hmem).1
    · exact fun hfound => List.mem_map_of_mem (h.recordsAscend.mem_iff.mpr hfound)

/-- All sinks are finished. -/
theorem serve_finishAll (h : Agrees registry past) :
    Explained past (registry.entry kind .finishAll) ∧
      Agrees (registry.serve kind.logged .finishAll).2
        (past ++ [registry.entry kind .finishAll]) := by
  have hsinks (sink : String × ℕ) : sink ∈ registry.sinks.entries ↔
      sink ∈ given (sinceClear past) := (h.sinksAscend.mem_iff).trans (h.sinks _ _)
  obtain ⟨hnumbered, deeds, hfinishing, hlog⟩ :=
    h.numbered.finishEntries kind fun sink hsink =>
      h.lt_length (mem_given_of_sinceClear ((hsinks sink).mp hsink))
  have hsame : registry.SameStreams
      (registry.finishEntries kind.logged registry.sinks.entries).2 :=
    finishEntries_sameStreams registry.sinks.entries
  have hserve : registry.serve kind.logged .finishAll = (.finished _, _) := rfl
  rw [entry_eq kind hserve hlog, hserve]
  exact ⟨.finished h.sinksAscend hsinks hfinishing,
    h.of_quiet hsame hnumbered rfl rfl rfl⟩

/-- **A call is served as the past explains**, and the past with it explains what the registry holds
then. -/
theorem serve (h : Agrees registry past) (call : Call) :
    Explained past (registry.entry kind call) ∧
      Agrees (registry.serve kind.logged call).2 (past ++ [registry.entry kind call]) := by
  cases call with
  | sink stream => exact h.serve_sink kind stream
  | enter record => exact h.serve_enter kind record
  | lookUp stream =>
    have hfound : Explained past _ := .found stream
    rw [← h.records] at hfound
    have hserve : registry.serve kind.logged (.lookUp stream) = (.found _, registry) := rfl
    rw [entry_eq kind hserve (List.append_nil _).symm, hserve]
    exact ⟨hfound, h.of_quiet (.refl _) h.numbered rfl rfl rfl⟩
  | list =>
    have hserve : registry.serve kind.logged .list = (.listed _, registry) := rfl
    rw [entry_eq kind hserve (List.append_nil _).symm, hserve]
    exact ⟨h.explained_list, h.of_quiet (.refl _) h.numbered rfl rfl rfl⟩
  | clear =>
    have hserve : registry.serve kind.logged .clear = (.cleared, registry.clear) := rfl
    rw [entry_eq kind hserve (List.append_nil _).symm, hserve]
    exact ⟨.cleared, h.clear rfl rfl⟩
  | finishAll => exact h.serve_finishAll kind
  | consume number sample record =>
    have hconsume := h.numbered.consume kind number sample record
    have hserve : registry.serve kind.logged (.consume number sample record) =
        (.replied _, _) := rfl
    rw [entry_eq kind hserve (hconsume.2.trans (List.append_nil _).symm), hserve]
    exact ⟨.consumed .., h.of_quiet (.consume ..) hconsume.1 rfl rfl rfl⟩

/-- Every call is served as the past explains, and in the end the past explains what the registry
holds. -/
theorem entries (h : Agrees registry past) (calls : List Call) :
    EachBehind (fun front entry => Explained (past ++ front) entry ∧
      ∃ later : Registry (Logged W) (ℕ × S), Agrees later (past ++ front ++ [entry]))
      (registry.entries kind calls) := by
  induction calls generalizing registry past with
  | nil => exact eachBehind_nil
  | cons call calls ih =>
    -- The call belongs to the past of all that follow.
    rcases h.serve kind call with ⟨hexplained, hagrees⟩
    refine eachBehind_cons.mpr ⟨?_, ?_⟩
    · rw [List.append_nil]
      exact ⟨hexplained, _, hagrees⟩
    · have hrest := ih hagrees
      simp only [List.append_assoc, List.singleton_append] at hrest ⊢
      exact hrest

/-- Two sinks that were given out are one exactly if they were given to one stream and the registry
was not cleared between. -/
theorem given_eq_iff {front middle : List Entry} {first second : Entry}
    (h : Agrees registry (front ++ first :: middle ++ [second])) {stream other : String}
    {number further : ℕ} (hfirst : first.given? = some (stream, number))
    (hsecond : second.given? = some (other, further)) :
    number = further ↔
      stream = other ∧ ∀ between ∈ middle, between.call.clears = false := by
  have hkeeps := clears_of_given hsecond
  have hnow : (other, further) ∈
      given (sinceClear (front ++ first :: middle ++ [second])) := by
    rw [sinceClear_concat hkeeps, mem_given_concat]
    exact .inr hsecond
  have hbefore : (stream, number) ∈ given (front ++ first :: middle ++ [second]) :=
    mem_given (by simp) hfirst
  constructor
  · rintro rfl
    have hstream := (h.made _ _ hbefore).symm.trans (h.made _ _ (mem_given_of_sinceClear hnow))
    refine ⟨Option.some_inj.mp hstream, fun clearing hmem => ?_⟩
    by_contra hclear
    -- The first sink would be older than the second one, and so not the same.
    have hold : (stream, number) ∈
        given (untilClear (front ++ first :: middle ++ [second])) := by
      rw [untilClear_concat hkeeps]
      exact mem_given (mem_untilClear hmem (Bool.not_eq_false _ ▸ hclear)) hfirst
    exact Nat.lt_irrefl number (h.newer (stream, number) hold (other, number) hnow)
  · rintro ⟨rfl, hmiddle⟩
    have hsince : (stream, number) ∈
        given (sinceClear (front ++ first :: middle ++ [second])) := by
      rw [sinceClear_concat hkeeps, mem_given_concat]
      exact .inl (mem_given (mem_sinceClear (clears_of_given hfirst) hmiddle) hfirst)
    exact Option.some_inj.mp (((h.sinks _ _).mpr hsince).symm.trans ((h.sinks _ _).mpr hnow))

end Agrees

/-- A registry has the sinks and the records of another one. -/
structure KeepsAll (registry later : Registry W S) : Prop where
  /-- The streams have the same sinks. -/
  sinks : later.sinks = registry.sinks
  /-- They have the same records. -/
  records : later.records = registry.records
  /-- No further sink was made. -/
  made : later.made = registry.made

/-- A sink that cannot be made changes neither the sinks nor the records. -/
theorem sink_failed {kind : SinkKind W S} {registry : Registry W S} {stream : String}
    {error : ConvertError} (h : (registry.sink kind stream).1 = .error error) :
    registry.KeepsAll (registry.sink kind stream).2 := by
  unfold sink at h ⊢
  split
  · exact ⟨rfl, rfl, rfl⟩
  · split
    · exact ⟨rfl, rfl, rfl⟩
    · rename_i hnone _ _ _ hcreate
      rw [hnone] at h
      dsimp only at h
      rw [hcreate] at h
      cases h

/-- All calls are in the history. -/
theorem call_entries (kind : SinkKind W S) (registry : Registry (Logged W) (ℕ × S))
    (calls : List Call) : (registry.entries kind calls).map (·.call) = calls := by
  induction calls generalizing registry with
  | nil => rfl
  | cons call calls ih => exact congrArg (call :: ·) (ih _)

/-- The answers are in the history. -/
theorem answer_entries (kind : SinkKind W S) (registry : Registry (Logged W) (ℕ × S))
    (calls : List Call) :
    (registry.entries kind calls).map (·.answer) = registry.answers kind.logged calls := by
  induction calls generalizing registry with
  | nil => rfl
  | cons call calls ih => exact congrArg (_ :: ·) (ih _)

/-- Two entries of a history, with those between them. -/
structure ComesAfter (first : Entry) (middle : List Entry) (second : Entry) : Prop where
  /-- Two sinks that are given out are one exactly if they are for one stream and the registry was
  not cleared between. -/
  given_iff : ∀ stream number other further, first.given? = some (stream, number) →
    second.given? = some (other, further) →
      (number = further ↔ stream = other ∧ ∀ between ∈ middle, between.call.clears = false)
  /-- Where a sink was made for a stream, none is asked for again until the registry is cleared. -/
  cleared : ∀ stream number, .made stream number ∈ first.deeds →
    ∀ deed ∈ second.deeds, deed.AsksFor stream → ∃ clearing ∈ middle, clearing.call.clears = true

/-- A history of some calls in which a stream has one sink and one record at a time. -/
structure KeepsStreams (kind : SinkKind W S) (world : W) (calls : List Call)
    (past : List Entry) : Prop where
  /-- The calls are those that were served. -/
  calls_eq : past.map (·.call) = calls
  /-- The answers are those of the registry. -/
  answers_eq : past.map (·.answer) = answers kind { world } calls
  /-- An answer and what is done with sinks follow from what was answered since the registry was
  last cleared. -/
  explained : EachBehind Explained past
  /-- So do the sinks that two calls are given. -/
  pairs : ∀ front first middle second rest, past = front ++ first :: middle ++ second :: rest →
    ComesAfter first middle second

/-- **A stream has one sink and one record at a time.** Whatever calls a registry serves, in
whatever order, its answers and what it does with sinks follow from what was answered since it was
last cleared; and a sink that cannot be made changes nothing. -/
theorem one_sink_and_record_per_stream (kind : SinkKind W S) (world : W) (calls : List Call) :
    KeepsStreams kind world calls (history kind world calls) ∧
    ∀ (registry : Registry W S) (stream : String) (error : ConvertError),
      (registry.sink kind stream).1 = .error error →
        registry.KeepsAll (registry.sink kind stream).2 := by
  have hentries : EachBehind (fun past entry => Explained past entry ∧
      ∃ later : Registry (Logged W) (ℕ × S), Agrees later (past ++ [entry]))
      (history kind world calls) := Agrees.entries kind (.new world) calls
  have hanswers : (history kind world calls).map (·.answer) = answers kind { world } calls :=
    (answer_entries kind _ calls).trans (answers_plain kind _ calls).symm
  refine ⟨{
    calls_eq := call_entries kind _ calls
    answers_eq := hanswers
    explained := hentries.imp fun _ _ => And.left
    pairs := fun front first middle second rest hhistory => ?_ }, fun _ _ _ => sink_failed⟩
  obtain ⟨hsecond, later, hlater⟩ := hentries (front ++ first :: middle) second rest hhistory
  refine
    { given_iff := fun stream number other further => hlater.given_eq_iff
      cleared := fun stream number hmade deed hdeed hasks => ?_ }
  have hsplit : history kind world calls = front ++ first :: (middle ++ second :: rest) := by
    rw [hhistory, List.append_assoc, List.cons_append]
  have hfirst := (hentries front first (middle ++ second :: rest) hsplit).1.given hmade
  -- Otherwise the sink was given out since the registry was last cleared, and is known.
  by_contra hnever
  have hmiddle : ∀ between ∈ middle, between.call.clears = false := fun between hbetween =>
    Bool.eq_false_iff.mpr fun hclear => hnever ⟨between, hbetween, hclear⟩
  exact hsecond.new hdeed hasks number
    (mem_given (mem_sinceClear (clears_of_given hfirst) hmiddle) hfirst)

/-- Sinks that know their stream. Some number of times none can be made, and the one of `B` cannot
be finished. -/
def reluctantSinks : SinkKind ℕ String where
  create
    | stream, 0 => (.ok stream, 0)
    | _, refusals + 1 => (.error (.ofMessage "not yet"), refusals)
  consume stream _ _ refusals := (.accepted, stream, refusals)
  finish stream refusals :=
    (if stream = "B" then .error (.ofMessage "disk full") else .ok (), stream, refusals)

/-- A record of the stream `A`. -/
def someRecord (quantization : ℕ) : StreamRecord :=
  { (default : StreamRecord) with id := "A", quantization }

/-- Calls that ask for the sink of `B` until there is one, and again when it was forgotten. -/
def contestedCalls : List Call :=
  [.sink "B", .sink "B", .sink "C", .enter (someRecord 1), .enter (someRecord 2), .sink "A",
    .sink "B", .finishAll, .clear, .lookUp "A", .sink "B", .finishAll]

/-- At first no sink of `B` can be made, and nothing is entered. Then there is one, which is given
again until the registry is cleared; the next one is new. The sink of `A` is finished before that of
`B`, which fails, so that of `C` is not finished. -/
theorem one_sink_and_record_per_stream_of_contestedCalls :
    (history reluctantSinks 1 contestedCalls).map (·.deeds) =
      [[.refused "B" (.ofMessage "not yet")], [.made "B" 0], [.made "C" 1], [], [],
        [.made "A" 2], [], [.finished 2 (.ok ()), .finished 0 (.error (.ofMessage "disk full"))],
        [], [], [.made "B" 3], [.finished 3 (.error (.ofMessage "disk full"))]] ∧
    (∃ front first between second middle third rest,
      history reluctantSinks 1 contestedCalls =
        front ++ first :: between ++ second :: middle ++ third :: rest ∧
      first.given? = some ("B", 0) ∧ second.given? = some ("B", 0) ∧
      third.given? = some ("B", 3) ∧
      (∀ entry ∈ between, entry.call.clears = false) ∧
      ∃ clearing ∈ between ++ second :: middle, clearing.call.clears = true) ∧
    (({ world := 1 } : Registry ℕ String).sink reluctantSinks "B").2.sinks = {} := by
  have hdeeds : (history reluctantSinks 1 contestedCalls).map (·.deeds) =
      [[.refused "B" (.ofMessage "not yet")], [.made "B" 0], [.made "C" 1], [], [],
        [.made "A" 2], [], [.finished 2 (.ok ()), .finished 0 (.error (.ofMessage "disk full"))],
        [], [], [.made "B" 3], [.finished 3 (.error (.ofMessage "disk full"))]] := by
    with_unfolding_all rfl
  have hgiven : (history reluctantSinks 1 contestedCalls).map (·.given?) =
      [none, some ("B", 0), some ("C", 1), none, none, some ("A", 2), some ("B", 0), none, none,
        none, some ("B", 3), none] := by
    with_unfolding_all rfl
  obtain ⟨hkeeps, hfailed⟩ := one_sink_and_record_per_stream reluctantSinks 1 contestedCalls
  refine ⟨hdeeds, ?_, (hfailed { world := 1 } "B" _ rfl).sinks⟩
  obtain ⟨e0, e1, e2, e3, e4, e5, e6, e7, e8, e9, e10, e11, hhistory⟩ :
      ∃ e0 e1 e2 e3 e4 e5 e6 e7 e8 e9 e10 e11, history reluctantSinks 1 contestedCalls =
        [e0, e1, e2, e3, e4, e5, e6, e7, e8, e9, e10, e11] :=
    ⟨_, _, _, _, _, _, _, _, _, _, _, _, rfl⟩
  rw [hhistory] at hdeeds hgiven
  simp only [List.map_cons, List.map_nil, List.cons.injEq] at hdeeds hgiven
  obtain ⟨-, hmade, -, -, -, -, -, -, -, -, hagain, -⟩ := hdeeds
  obtain ⟨-, hfirst, -, -, -, -, hsecond, -, -, -, hthird, -⟩ := hgiven
  refine ⟨[e0], e1, [e2, e3, e4, e5], e6, [e7, e8, e9], e10, [e11], hhistory, hfirst, hsecond,
    hthird, ?_, ?_⟩
  · have hsame := hkeeps.pairs [e0] e1 [e2, e3, e4, e5] e6 [e7, e8, e9, e10, e11] hhistory
    exact ((hsame.given_iff "B" 0 "B" 0 hfirst hsecond).mp rfl).2
  · have hmakes := hkeeps.pairs [e0] e1 [e2, e3, e4, e5, e6, e7, e8, e9] e10 [e11] hhistory
    exact hmakes.cleared "B" 0 (by simp [hmade]) (.made "B" 3) (by simp [hagain]) rfl

end Registry

end SampleDemux
