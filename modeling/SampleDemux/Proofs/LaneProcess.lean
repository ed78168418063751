import SampleDemux.Proofs.Demultiplexer
import SampleDemux.Proofs.Interleaving

/-!
# Lanes as processes

Reading a lane is an orderly process: it delivers samples only to the sinks of its blocks, looks
only at its own file, and stops with a failure when a sample is not taken. When its samples are
taken, every step that completes a cycle takes bytes of the input, so that driving a lane comes to
the end of the input before its steps run out. Hence driving a lane is a step, and then driving the
lane that the step leaves. What the samples are is left to others.
-/

namespace SampleDemux

/-- An outcome is a failure. -/
def Fails {α : Type} (outcome : Except ConvertError α) : Prop := ∃ error, outcome = .error error

/-- A success is no failure. -/
theorem not_fails_ok {α : Type} (result : α) : ¬Fails (.ok result) := nofun

/-- Whether an outcome is a failure can be told. -/
instance Fails.decidable {α : Type} (outcome : Except ConvertError α) : Decidable (Fails outcome) :=
  match outcome with
  | .error error => .isTrue ⟨error, rfl⟩
  | .ok result => .isFalse (not_fails_ok result)

/-- Bytes that a request was served that ended so. -/
def Fill.served (requested : ℕ) : Fill → ℕ
  | full => requested
  | empty => 0
  | part bytes => bytes

/-- A request tells how many bytes it was served. -/
@[simp]
theorem Fill.served_of (requested served : ℕ) :
    (of requested served).served requested = served := by
  unfold of
  split
  · rename_i hfull
    exact hfull.symm
  · split
    · rename_i hempty
      exact hempty.symm
    · rfl

namespace ByteSource

/-- The place of the file from which bytes come. -/
def location? (source : ByteSource) : Option Location := source.file.map (·.location)

/-- A source gets bytes from the file at a place. -/
def Reads (source : ByteSource) (location : Location) : Prop := source.location? = some location

/-- Bytes that a source can still serve over files with given contents. -/
def left (contents : Location → List UInt8) (source : ByteSource) : ℕ :=
  source.remaining.length +
    (source.file.elim 0 fun file => (contents file.location).length - file.offset)

/-- A source at a later time: requests were made, and bytes may have come from its file. -/
inductive Leads (source : ByteSource) : ByteSource → Prop
  /-- Nothing was done. -/
  | refl : Leads source source
  /-- A request was made, whatever came of it. -/
  | read {between : ByteSource} (h : Leads source between) (count : ℕ) :
      Leads source (between.read count).source
  /-- Bytes came from the file. -/
  | supply {between : ByteSource} (h : Leads source between) (data : List UInt8) :
      Leads source (between.supply data)

/-- What is later than a later source is later. -/
theorem Leads.trans {first second third : ByteSource} (h : first.Leads second)
    (hnext : second.Leads third) : first.Leads third := by
  induction hnext with
  | refl => exact h
  | read _ count ih => exact ih.read count
  | supply _ data ih => exact ih.supply data

variable (contents : Location → List UInt8) (source : ByteSource)

/-- No more bytes can be served than the bound says, if files are no longer than they can be. -/
theorem left_le_bound
    (h : ∀ location, source.Reads location → (contents location).length ≤ fileBound) :
    source.left contents ≤ source.bound := by
  unfold left bound
  cases hfile : source.file with
  | none => simp
  | some file =>
    have hlength := h file.location (by rw [Reads, location?, hfile]; rfl)
    simp only [Option.elim_some, Option.isSome_some, if_true]
    omega

/-- Bytes that a request takes are those of the reader before the bytes that it leaves. -/
theorem bytesOf_takeEvents (count : ℕ) (events : List ReadEvent) :
    Reader.bytesOf events = (Reader.takeEvents count events).data ++
      Reader.bytesOf (Reader.takeEvents count events).rest := by
  induction events generalizing count with
  | nil => rfl
  | cons event events ih =>
    unfold Reader.takeEvents
    by_cases hcount : count = 0
    · rw [if_pos hcount]
      rfl
    rw [if_neg hcount]
    cases event with
    | interrupted => exact ih count
    | failed reason => rfl
    | ended => exact (Reader.bytesOf_behindEnd events).symm
    | bytes data =>
      dsimp only
      split
      · simp only [Reader.bytesOf, List.append_assoc]
        rw [ih (count - data.length)]
      · simp only [Reader.bytesOf]
        rw [← List.append_assoc, List.take_append_drop]

/-- Bytes that come to a reader are handed out last, unless its input has ended before. -/
theorem length_bytesOf_concat_le (events : List ReadEvent) (data : List UInt8) :
    (Reader.bytesOf (events ++ [.bytes data])).length ≤
      (Reader.bytesOf events).length + data.length := by
  induction events with
  | nil => simp [Reader.bytesOf]
  | cons event events ih =>
    cases event with
    | bytes first =>
      simp only [List.cons_append, Reader.bytesOf, List.length_append]
      omega
    | interrupted => exact ih
    | failed reason => exact ih
    | ended => exact Nat.zero_le _

/-- A read leaves the file. -/
@[simp]
theorem location?_read (count : ℕ) : (source.read count).source.location? = source.location? := by
  unfold read
  split
  · rfl
  · dsimp only
    split <;> rfl

/-- A request takes no more bytes than are wanted. -/
theorem length_takeEvents_le (count : ℕ) (events : List ReadEvent) :
    (Reader.takeEvents count events).data.length ≤ count := by
  induction events generalizing count with
  | nil => exact Nat.zero_le count
  | cons event events ih =>
    unfold Reader.takeEvents
    by_cases hcount : count = 0
    · rw [if_pos hcount]
      exact Nat.zero_le count
    rw [if_neg hcount]
    cases event with
    | interrupted => exact ih count
    | failed reason => exact Nat.zero_le count
    | ended => exact Nat.zero_le count
    | bytes data =>
      dsimp only
      split
      · rename_i hall
        have hrest := ih (count - data.length)
        have hlength : data.length ≤ count := List.drop_eq_nil_iff.mp hall
        simp only [List.length_append]
        omega
      · exact List.length_take_le count data

/-- A read takes no more bytes than are wanted. -/
theorem length_read_le (count : ℕ) : (source.read count).data.length ≤ count := by
  unfold read
  split
  · exact Nat.zero_le count
  · dsimp only
    split <;> exact length_takeEvents_le count _

variable {source} in
/-- A read that does not fail has taken what it says, and its source stands behind that. -/
theorem read_of_ok {count : ℕ} {fill : Fill} (h : (source.read count).outcome = .ok fill) :
    (source.read count).data.length = fill.served count ∧
      (source.read count).source.position = source.position + fill.served count := by
  cases hreader : source.reader with
  | none =>
    rw [read, hreader] at h
    cases h
  | some reader =>
    simp only [read, hreader] at h ⊢
    split at h
    · cases h
    · cases h
      simp only [Fill.served_of, and_self]

/-- At a later time a source gets bytes from the same file. -/
theorem Leads.reads_eq {source later : ByteSource} (h : source.Leads later) :
    later.Reads = source.Reads := by
  have hlocation : later.location? = source.location? := by
    induction h with
    | refl => rfl
    | @read between _ count ih => rw [between.location?_read, ih]
    | @supply between _ data ih =>
      rw [← ih, location?, location?]
      unfold ByteSource.supply
      cases between.file <;> rfl
  funext location
  rw [Reads, Reads, hlocation]

/-- A read takes the bytes that it serves. -/
theorem left_read (count : ℕ) :
    (source.read count).source.left contents ≤ source.left contents ∧
      ((source.read count).outcome = .ok .full →
        (source.read count).source.left contents + count ≤ source.left contents) := by
  cases hreader : source.reader with
  | none =>
    have hread : source.read count = ⟨[], .error .closed, source⟩ := by rw [read, hreader]
    rw [hread]
    refine ⟨le_rfl, fun hfull => ?_⟩
    cases hfull
  | some reader =>
    have hbytes := congrArg List.length (bytesOf_takeEvents count reader.events)
    have hremaining : source.remaining = Reader.bytesOf reader.events := by
      rw [remaining, hreader]
      rfl
    rw [List.length_append, ← hremaining] at hbytes
    simp only [read, hreader]
    split
    · simp only [left, remaining, Reader.remaining, reduceCtorEq, false_implies, and_true]
        at hbytes ⊢
      omega
    · simp only [left, remaining, Reader.remaining, Except.ok.injEq] at hbytes ⊢
      refine ⟨by omega, fun hfull => ?_⟩
      unfold Fill.of at hfull
      split at hfull
      · omega
      · split at hfull <;> cases hfull

section Fetch

variable (wanted : ℕ) (amount : ℕ → ℕ)

/-- Getting bytes from the file looks at nothing else and delivers nothing. -/
theorem fetch_orderly (owns : Delivery → Prop) :
    (source.fetch wanted amount).Orderly owns source.Reads fun _ => False := by
  unfold fetch
  split
  · exact .done _
  · rename_i file hfile
    dsimp only
    split
    · exact .done _
    · refine .look ?_ fun data => .done _
      rw [Reads, location?, hfile]
      rfl

/-- Getting bytes from the file leads to a later source. -/
theorem leads_of_fetch {later : ByteSource} (h : (source.fetch wanted amount).CanReturn later) :
    source.Leads later := by
  unfold fetch at h
  split at h
  · cases h
    exact .refl
  · dsimp only at h
    split at h
    · cases h
      exact .refl
    · cases h with
      | look data h =>
        cases h
        exact .supply .refl data

/-- Bytes that come from the file are served afterwards. -/
theorem left_fetch :
    ((source.fetch wanted amount).ownResult contents).left contents ≤ source.left contents := by
  unfold fetch
  split
  · exact le_rfl
  · rename_i file hfile
    dsimp only
    split
    · exact le_rfl
    · simp only [Process.ownResult, left, remaining, supply, hfile, Option.map_some,
        Option.elim_some, FilePart.cut]
      have hcut : (((contents file.location).drop file.offset).take
          (amount (source.position + wanted - file.offset))).length ≤
            (contents file.location).length - file.offset :=
        (List.length_take_le' ..).trans_eq (List.length_drop ..)
      cases source.reader with
      | none =>
        simp only [Option.map_none, List.length_nil]
        omega
      | some reader =>
        have hbytes := length_bytesOf_concat_le reader.events
          (((contents file.location).drop file.offset).take
            (amount (source.position + wanted - file.offset)))
        simp only [Option.map_some, Reader.remaining]
        omega

end Fetch

end ByteSource

open Process

namespace ChunkRunner

/-- Samples that a chunk may deliver: those for its sinks, with the records that go with them. -/
def Feeds (runner : ChunkRunner) (delivery : Delivery) : Prop :=
  ∃ binding ∈ runner.bindings, delivery.sink = binding.sink ∧ delivery.record = binding.record

variable (runner : ChunkRunner) (lane : String) (source : ByteSource)

/-- The samples of a chunk go to its sinks. -/
theorem feeds_of_mem_deliveries {values : List (Option Sample)} {delivery : Delivery}
    (h : delivery ∈ runner.deliveries values) : runner.Feeds delivery := by
  unfold deliveries at h
  rcases List.mem_filterMap.mp h with ⟨index, -, hdelivery⟩
  split at hdelivery
  · split at hdelivery
    · rename_i binding hbinding
      cases hdelivery
      rcases Option.bind_eq_some_iff.mp hbinding with ⟨stream, -, hstream⟩
      exact ⟨binding, List.mem_of_getElem? hstream, rfl, rfl⟩
    · cases hdelivery
  · cases hdelivery

/-- Delivering samples is orderly. -/
theorem deliverAll_orderly {owns : Delivery → Prop} {reads : Location → Prop} (count : ℕ)
    {deliveries : List Delivery} (h : ∀ delivery ∈ deliveries, owns delivery) :
    (deliverAll lane count deliveries).Orderly owns reads Fails := by
  induction deliveries generalizing count with
  | nil => exact .done _
  | cons delivery deliveries ih =>
    rcases List.forall_mem_cons.mp h with ⟨hfirst, hrest⟩
    refine .deliver hfirst (fun reply hreply => ?_) (ih (count + 1) hrest)
    cases reply with
    | accepted => exact absurd rfl hreply
    | refused cause => exact ⟨_, rfl, _, rfl⟩
    | panicked => exact ⟨_, rfl, _, rfl⟩

/-- Reading a chunk from the bytes at hand is orderly. -/
theorem executeNext_orderly (reads : Location → Prop) :
    (runner.executeNext lane source).Orderly runner.Feeds reads fun result => Fails result.1 := by
  unfold executeNext
  dsimp only
  split
  · exact .done _
  · exact .done _
  · exact .done _
  · split
    · exact .done _
    · refine (deliverAll_orderly lane 0 fun _ => runner.feeds_of_mem_deliveries).map ?_
      rintro _ ⟨error, rfl⟩
      exact ⟨error, rfl⟩

/-- Reading a chunk is orderly. -/
theorem execute_orderly :
    (runner.execute lane source).Orderly runner.Feeds source.Reads fun result => Fails result.1 :=
  (source.fetch_orderly _ _ _).bind (fun later _ => runner.executeNext_orderly lane later _) nofun

/-- A chunk leaves its source behind the read, which is full if samples are counted. -/
theorem source_of_executeNext {result : Except ConvertError (Option ℕ) × ByteSource}
    (h : (runner.executeNext lane source).CanReturn result) :
    result.2 = (source.read runner.plan.sizeBytes).source ∧
      ∀ count, result.1 = .ok (some count) →
        (source.read runner.plan.sizeBytes).outcome = .ok .full := by
  unfold executeNext at h
  dsimp only at h
  split at h
  · cases h
    exact ⟨rfl, nofun⟩
  · cases h
    exact ⟨rfl, nofun⟩
  · cases h
    exact ⟨rfl, nofun⟩
  · rename_i hfull
    split at h
    · cases h
      exact ⟨rfl, nofun⟩
    · rcases canReturn_map.mp h with ⟨outcome, -, rfl⟩
      exact ⟨rfl, fun _ _ => hfull⟩

/-- Reading a chunk leads to a later source. -/
theorem leads_of_execute {result : Except ConvertError (Option ℕ) × ByteSource}
    (h : (runner.execute lane source).CanReturn result) : source.Leads result.2 := by
  rcases canReturn_bind.mp h with ⟨later, hfetch, hnext⟩
  rw [(runner.source_of_executeNext lane later hnext).1]
  exact (source.leads_of_fetch _ _ hfetch).read _

/-- A chunk takes its bytes if samples are counted. -/
theorem left_execute (contents : Location → List UInt8) :
    (((runner.execute lane source).ownResult contents).2.left contents ≤ source.left contents) ∧
      ∀ count, ((runner.execute lane source).ownResult contents).1 = .ok (some count) →
        ((runner.execute lane source).ownResult contents).2.left contents +
          runner.plan.sizeBytes ≤ source.left contents := by
  rw [execute, ownResult_bind]
  have hfetch := source.left_fetch contents runner.plan.sizeBytes (max bufferSize)
  rw [← ByteSource.fetchRead] at hfetch
  generalize (source.fetchRead runner.plan.sizeBytes).ownResult contents = later at hfetch ⊢
  rcases later.left_read contents runner.plan.sizeBytes with ⟨hle, hfull⟩
  rcases runner.source_of_executeNext lane later (canReturn_ownResult contents _) with
    ⟨hsource, hcounted⟩
  rw [hsource]
  refine ⟨hle.trans hfetch, fun count hcount => (hfull ?_).trans hfetch⟩
  exact hcounted count hcount

end ChunkRunner

namespace BlockRunner

/-- Samples that a block may deliver: those that its chunks may. -/
def Feeds (block : BlockRunner) (delivery : Delivery) : Prop :=
  ∃ chunk ∈ block.chunks, chunk.Feeds delivery

/-- Bytes of a cycle. -/
def size (block : BlockRunner) : ℕ :=
  block.sizeHeader + (block.chunks.map (·.plan.sizeBytes)).sum + block.sizeFooter

variable (lane : String) (start : ℕ) (source : ByteSource)

/-- Passing over a region is orderly. -/
theorem skipRegion_orderly (size : ℕ) (owns : Delivery → Prop) :
    (skipRegion lane size start source).Orderly owns source.Reads fun result => Fails result.1 :=
  (source.fetch_orderly _ _ _).map nofun

/-- Passing over a region leaves the source behind the read, which is full if it was there. -/
theorem source_of_skipNext (size : ℕ) :
    (skipNext lane size start source).2 = (source.read size).source ∧
      ((skipNext lane size start source).1 = .ok true →
        (source.read size).outcome = .ok .full) := by
  unfold skipNext ByteSource.skip
  dsimp only
  split
  · exact ⟨rfl, nofun⟩
  · rename_i hfull
    exact ⟨rfl, fun _ => hfull⟩
  · split
    · exact ⟨rfl, nofun⟩
    · exact ⟨rfl, nofun⟩
  · exact ⟨rfl, nofun⟩

/-- Passing over a region leads to a later source. -/
theorem leads_of_skipRegion {size : ℕ} {result : Except ConvertError Bool × ByteSource}
    (h : (skipRegion lane size start source).CanReturn result) : source.Leads result.2 := by
  rcases canReturn_map.mp h with ⟨later, hfetch, rfl⟩
  rw [(source_of_skipNext lane start later size).1]
  exact (source.leads_of_fetch _ _ hfetch).read _

/-- Passing over a region takes its bytes if it is there. -/
theorem left_skipRegion (contents : Location → List UInt8) (size : ℕ) :
    (((skipRegion lane size start source).ownResult contents).2.left contents ≤
      source.left contents) ∧
      (((skipRegion lane size start source).ownResult contents).1 = .ok true →
        ((skipRegion lane size start source).ownResult contents).2.left contents + size ≤
          source.left contents) := by
  rw [skipRegion, ownResult_map, ByteSource.fetchSkip]
  have hfetch := source.left_fetch contents size
    fun missing => (missing + bufferSize - 1) / bufferSize * bufferSize
  generalize (source.fetch size fun missing =>
    (missing + bufferSize - 1) / bufferSize * bufferSize).ownResult contents = later at hfetch ⊢
  rcases later.left_read contents size with ⟨hle, hfull⟩
  rcases source_of_skipNext lane start later size with ⟨hsource, hthere⟩
  rw [hsource]
  exact ⟨hle.trans hfetch, fun hregion => (hfull (hthere hregion)).trans hfetch⟩

/-- Reading chunks leads to a later source. -/
theorem leads_of_runChunks {samples : ℕ} {chunks : List ChunkRunner}
    {result : Except ConvertError (Option ℕ) × ByteSource}
    (h : (runChunks lane start samples chunks source).CanReturn result) :
    source.Leads result.2 := by
  induction chunks generalizing samples source with
  | nil =>
    cases h
    exact .refl
  | cons chunk chunks ih =>
    rcases canReturn_bind.mp h with ⟨⟨outcome, later⟩, hexecute, hnext⟩
    have hlater := chunk.leads_of_execute lane source hexecute
    rcases outcome with error | _ | count
    · cases hnext
      exact hlater
    · dsimp only at hnext
      split at hnext <;> cases hnext <;> exact hlater
    · exact hlater.trans (ih later hnext)

/-- Reading chunks is orderly. -/
theorem runChunks_orderly (samples : ℕ) (chunks : List ChunkRunner) :
    (runChunks lane start samples chunks source).Orderly
      (fun delivery => ∃ chunk ∈ chunks, chunk.Feeds delivery) source.Reads
      fun result => Fails result.1 := by
  induction chunks generalizing samples source with
  | nil => exact .done _
  | cons chunk chunks ih =>
    have hfirst := (chunk.execute_orderly lane source).mono
      (fun delivery hdelivery => (⟨chunk, List.mem_cons_self, hdelivery⟩ :
        ∃ other ∈ chunk :: chunks, other.Feeds delivery)) fun _ hreads => hreads
    refine hfirst.bind (fun result hresult => ?_) ?_
    · rcases result with ⟨error | _ | count, later⟩
      · exact .done _
      · dsimp only
        split <;> exact .done _
      · have hrest := ih later (samples + count)
        rw [(chunk.leads_of_execute lane source hresult).reads_eq] at hrest
        exact hrest.mono (fun delivery ⟨other, hother, hfeeds⟩ =>
          ⟨other, List.mem_cons_of_mem chunk hother, hfeeds⟩) fun _ hreads => hreads
    · rintro ⟨_, later⟩ ⟨error, rfl⟩
      exact ⟨_, rfl, error, rfl⟩

/-- Chunks take their bytes if samples are counted. -/
theorem left_runChunks (contents : Location → List UInt8) (samples : ℕ)
    (chunks : List ChunkRunner) :
    (((runChunks lane start samples chunks source).ownResult contents).2.left contents ≤
      source.left contents) ∧
      ∀ count, ((runChunks lane start samples chunks source).ownResult contents).1 =
          .ok (some count) →
        ((runChunks lane start samples chunks source).ownResult contents).2.left contents +
          (chunks.map (·.plan.sizeBytes)).sum ≤ source.left contents := by
  induction chunks generalizing samples source with
  | nil => exact ⟨le_rfl, fun _ _ => le_rfl⟩
  | cons chunk chunks ih =>
    rcases chunk.left_execute lane source contents with ⟨hle, hcounted⟩
    rw [runChunks, ownResult_bind]
    generalize (chunk.execute lane source).ownResult contents = result at hle hcounted ⊢
    rcases result with ⟨error | _ | count, later⟩
    · refine ⟨hle, fun _ hcount => ?_⟩
      cases hcount
    · dsimp only
      refine ⟨?_, fun _ hcount => ?_⟩
      · split <;> exact hle
      · split at hcount <;> cases hcount
    · rcases ih later (samples + count) with ⟨hrest, hothers⟩
      have htaken := hcounted count rfl
      dsimp only at hle htaken ⊢
      refine ⟨hrest.trans hle, fun total htotal => ?_⟩
      have hleft := hothers total htotal
      rw [List.map_cons, List.sum_cons]
      omega

variable (block : BlockRunner)

/-- Running a cycle leads to a later source. -/
theorem leads_of_runCycle {result : Except ConvertError CycleOutcome × ByteSource}
    (h : (block.runCycle lane source).CanReturn result) : source.Leads result.2 := by
  rcases canReturn_bind.mp h with ⟨⟨header, behind⟩, hheader, hchunks⟩
  have hbehind := leads_of_skipRegion lane source.position source hheader
  rcases header with error | _ | _
  · cases hchunks
    exact hbehind
  · cases hchunks
    exact hbehind
  · rcases canReturn_bind.mp hchunks with ⟨⟨chunks, later⟩, hlater, hfooter⟩
    have hread := hbehind.trans (leads_of_runChunks lane source.position behind hlater)
    rcases chunks with error | _ | samples
    · cases hfooter
      exact hread
    · cases hfooter
      exact hread
    · rcases canReturn_map.mp hfooter with ⟨⟨footer, final⟩, hfinal, rfl⟩
      have hlast := hread.trans (leads_of_skipRegion lane source.position later hfinal)
      rcases footer with error | _ | _ <;> exact hlast

/-- Running a cycle is orderly. -/
theorem runCycle_orderly :
    (block.runCycle lane source).Orderly block.Feeds source.Reads
      fun result => Fails result.1 := by
  refine (skipRegion_orderly lane source.position source block.sizeHeader block.Feeds).bind
    (fun result hheader => ?_) ?_
  · rcases result with ⟨error | _ | _, behind⟩
    · exact .done _
    · exact .done _
    · have hbehind := leads_of_skipRegion lane source.position source hheader
      have hchunks := runChunks_orderly lane source.position behind 0 block.chunks
      rw [hbehind.reads_eq] at hchunks
      refine hchunks.bind (fun result hlater => ?_) ?_
      · rcases result with ⟨error | _ | samples, later⟩
        · exact .done _
        · exact .done _
        · have hread := hbehind.trans (leads_of_runChunks lane source.position behind hlater)
          have hfooter := skipRegion_orderly lane source.position later block.sizeFooter block.Feeds
          rw [hread.reads_eq] at hfooter
          refine hfooter.map ?_
          rintro ⟨_, final⟩ ⟨error, rfl⟩
          exact ⟨error, rfl⟩
      · rintro ⟨_, later⟩ ⟨error, rfl⟩
        exact ⟨_, rfl, error, rfl⟩
  · rintro ⟨_, behind⟩ ⟨error, rfl⟩
    exact ⟨_, rfl, error, rfl⟩

/-- A cycle that is completed takes its bytes. -/
theorem left_runCycle (contents : Location → List UInt8) {bytes samples : ℕ}
    (h : ((block.runCycle lane source).ownResult contents).1 = .ok (.completed bytes samples)) :
    ((block.runCycle lane source).ownResult contents).2.left contents + block.size ≤
      source.left contents := by
  rw [runCycle, ownResult_bind] at h ⊢
  rcases left_skipRegion lane source.position source contents block.sizeHeader with ⟨-, hheader⟩
  generalize (skipRegion lane block.sizeHeader source.position source).ownResult contents =
    result at h hheader ⊢
  rcases result with ⟨error | _ | _, behind⟩
  · cases h
  · cases h
  · have hfirst := hheader rfl
    dsimp only at h hfirst ⊢
    rw [ownResult_bind] at h ⊢
    have hchunks := (left_runChunks lane source.position behind contents 0 block.chunks).2
    generalize (runChunks lane source.position 0 block.chunks behind).ownResult contents =
      result at h hchunks ⊢
    rcases result with ⟨error | _ | count, later⟩
    · cases h
    · cases h
    · have hsecond := hchunks count rfl
      dsimp only at h hsecond ⊢
      rw [ownResult_map] at h ⊢
      have hfooter := (left_skipRegion lane source.position later contents block.sizeFooter).2
      generalize (skipRegion lane block.sizeFooter source.position later).ownResult contents =
        result at h hfooter ⊢
      rcases result with ⟨error | _ | _, final⟩
      · cases h
      · cases h
      · have hthird := hfooter rfl
        dsimp only at hthird ⊢
        rw [size]
        omega

end BlockRunner

namespace Lane

/-- Samples that a lane may deliver: those that its blocks may. -/
def Feeds (lane : Lane) (delivery : Delivery) : Prop :=
  ∃ block ∈ lane.blocks, block.Feeds delivery

/-- A lane has the name and the blocks of another one. -/
structure Alike (lane other : Lane) : Prop where
  /-- The lane has the same identifier. -/
  id : other.id = lane.id
  /-- Its totals are those of the same lane. -/
  totals : other.summary.lane = lane.summary.lane
  /-- It has the same blocks. -/
  blocks : other.blocks = lane.blocks

/-- A lane is like itself. -/
theorem Alike.refl (lane : Lane) : lane.Alike lane := ⟨rfl, rfl, rfl⟩

/-- A lane like one that is like a third is like the third. -/
theorem Alike.trans {first second third : Lane} (h : first.Alike second)
    (hnext : second.Alike third) : first.Alike third :=
  ⟨hnext.id.trans h.id, hnext.totals.trans h.totals, hnext.blocks.trans h.blocks⟩

/-- A lane is another one at a later time: it is like it, and so is its source. -/
structure Later (lane later : Lane) : Prop extends Alike lane later where
  /-- It reads on where the other one was. -/
  leads : lane.source.Leads later.source

/-- A lane is itself at a later time. -/
theorem Later.refl (lane : Lane) : lane.Later lane := ⟨.refl lane, .refl⟩

/-- What is later than a later lane is later. -/
theorem Later.trans {first second third : Lane} (h : first.Later second)
    (hnext : second.Later third) : first.Later third :=
  ⟨h.toAlike.trans hnext.toAlike, h.leads.trans hnext.leads⟩

/-- Every cycle of a lane takes a byte. -/
def CyclesPositive (lane : Lane) : Prop := ∀ block ∈ lane.blocks, 0 < block.size

/-- Whether every cycle takes a byte is a matter of the blocks. -/
theorem CyclesPositive.of_blocks {lane next : Lane} (h : lane.CyclesPositive)
    (hblocks : next.blocks = lane.blocks) : next.CyclesPositive := by
  unfold CyclesPositive
  rw [hblocks]
  exact h

/-- A lane comes to its end: its cycles take bytes, and its file has no more of them than a file can
have. -/
structure Bounded (contents : Location → List UInt8) (lane : Lane) : Prop where
  /-- Every cycle takes a byte. -/
  positive : lane.CyclesPositive
  /-- The file is no longer than a file can be. -/
  contents_le : ∀ location, lane.source.Reads location →
    (contents location).length ≤ ByteSource.fileBound

/-- A lane comes to its end at a later time as well. -/
theorem Later.bounded {contents : Location → List UInt8} {lane later : Lane} (h : lane.Later later)
    (hbounded : lane.Bounded contents) : later.Bounded contents where
  positive := hbounded.positive.of_blocks h.blocks
  contents_le := by
    rw [h.leads.reads_eq]
    exact hbounded.contents_le

variable (lane : Lane)

/-- A step finds a finished lane, or no block, or runs a cycle of a block. -/
theorem step_cases :
    (lane.finished = true ∧ lane.step = .done (.ok .endOfInput, lane)) ∨
      lane.step = .done (.ok .endOfInput, { lane.turn with finished := true }) ∨
      ∃ block ∈ lane.blocks,
        lane.step = (block.runCycle lane.id lane.source).map lane.turn.settle := by
  have hturn := lane.turn_eq
  cases hfinished : lane.finished with
  | true => exact .inl ⟨rfl, by rw [step, if_pos hfinished]⟩
  | false =>
    cases hblock : lane.turn.blocks[lane.turn.blockIndex]? with
    | none =>
      exact .inr (.inl (by simp only [step, hfinished, Bool.false_eq_true, if_false, hblock]))
    | some block =>
      refine .inr (.inr ⟨block, ?_, ?_⟩)
      · have hmem := List.mem_of_getElem? hblock
        rwa [hturn] at hmem
      · rw [step_eq_settle hfinished hblock, hturn]

/-- How a cycle came out makes no difference for the blocks and for the file. -/
theorem later_settle (result : Except ConvertError CycleOutcome × ByteSource)
    (h : lane.source.Leads result.2) :
    lane.Later (lane.turn.settle result).2 := by
  have hturn := lane.turn_eq
  rw [hturn]
  rcases result with ⟨error | _ | _, source⟩ <;> exact ⟨⟨rfl, rfl, rfl⟩, h⟩

/-- After a step it is the same lane, and one that has come to its end is finished. -/
theorem later_of_step {result : Except ConvertError Step × Lane} (h : lane.step.CanReturn result) :
    lane.Later result.2 ∧ (result.1 = .ok .endOfInput → result.2.finished = true) := by
  rcases lane.step_cases with ⟨hfinished, hstep⟩ | hstep | ⟨block, -, hstep⟩
  · rw [hstep] at h
    cases h
    exact ⟨.refl lane, fun _ => hfinished⟩
  · rw [hstep] at h
    cases h
    have hturn := lane.turn_eq
    rw [hturn]
    exact ⟨⟨⟨rfl, rfl, rfl⟩, .refl⟩, fun _ => rfl⟩
  · rw [hstep] at h
    rcases canReturn_map.mp h with ⟨outcome, hcycle, rfl⟩
    refine ⟨lane.later_settle outcome (block.leads_of_runCycle _ _ hcycle), fun hend => ?_⟩
    rcases outcome with ⟨error | _ | _, source⟩
    · cases hend
    · cases hend
    · rfl

/-- A step of a lane is orderly. -/
theorem step_orderly :
    lane.step.Orderly lane.Feeds lane.source.Reads fun result => Fails result.1 := by
  rcases lane.step_cases with ⟨-, hstep⟩ | hstep | ⟨block, hblock, hstep⟩
  · rw [hstep]
    exact .done _
  · rw [hstep]
    exact .done _
  · rw [hstep]
    have hcycle := (block.runCycle_orderly lane.id lane.source).mono
      (fun delivery hdelivery => (⟨block, hblock, hdelivery⟩ : lane.Feeds delivery))
      fun _ hreads => hreads
    refine hcycle.map ?_
    rintro ⟨_, source⟩ ⟨error, rfl⟩
    exact ⟨error, rfl⟩

/-- A step that completes a cycle takes bytes. -/
theorem left_step (hpositive : lane.CyclesPositive) (contents : Location → List UInt8)
    {bytes samples : ℕ} {next : Lane}
    (h : lane.step.ownResult contents = (.ok (.cycle bytes samples), next)) :
    next.source.left contents < lane.source.left contents := by
  rcases lane.step_cases with ⟨-, hstep⟩ | hstep | ⟨block, hblock, hstep⟩
  · rw [hstep] at h
    cases h
  · rw [hstep] at h
    cases h
  · rw [hstep, ownResult_map] at h
    have hcycle := @BlockRunner.left_runCycle lane.id lane.source block contents
    generalize (block.runCycle lane.id lane.source).ownResult contents = result at h hcycle
    rcases result with ⟨error | _ | _, source⟩
    · cases h
    · have htaken := hcycle rfl
      have hsize := hpositive block hblock
      obtain rfl : _ = next := congrArg Prod.snd h
      change source.left contents < _
      dsimp only at htaken
      omega
    · cases h

section Drive

variable (seen : List Sight) (steps : ℕ)

/-- After driving it is the same lane. -/
theorem later_of_driveSteps {drive : Drive} (h : (driveSteps seen steps lane).CanReturn drive) :
    lane.Later drive.lane := by
  induction steps generalizing seen lane with
  | zero =>
    cases h
    exact .refl lane
  | succ steps ih =>
    rcases canReturn_bind.mp h with ⟨⟨error | _ | _, next⟩, hstep, hdrive⟩
    · cases hdrive
      exact (lane.later_of_step hstep).1
    · exact (lane.later_of_step hstep).1.trans (ih next _ hdrive)
    · cases hdrive
      exact (lane.later_of_step hstep).1

/-- Driving a lane is orderly. -/
theorem driveSteps_orderly :
    (driveSteps seen steps lane).Orderly lane.Feeds lane.source.Reads
      fun drive => Fails drive.outcome := by
  induction steps generalizing seen lane with
  | zero => exact .done _
  | succ steps ih =>
    refine lane.step_orderly.bind (fun result hstep => ?_) ?_
    · have hlater := (lane.later_of_step hstep).1
      rcases result with ⟨error | ⟨bytes, samples⟩ | _, next⟩
      · exact .done _
      · refine (ih next _).mono (fun delivery hdelivery => ?_) fun location hreads => ?_
        · rcases hdelivery with ⟨block, hblock, hfeeds⟩
          exact ⟨block, hlater.blocks ▸ hblock, hfeeds⟩
        · rwa [hlater.leads.reads_eq] at hreads
      · exact .done _
    · rintro ⟨_, next⟩ ⟨error, rfl⟩
      exact ⟨_, rfl, error, rfl⟩

end Drive

section OwnDrive

variable (contents : Location → List UInt8)

/-- What was seen before driving is seen before what is seen then, and makes no difference. -/
theorem own_driveSteps_seen (seen : List Sight) (steps : ℕ) :
    (driveSteps seen steps lane).ownDeliveries contents =
        (driveSteps [] steps lane).ownDeliveries contents ∧
      (driveSteps seen steps lane).ownResult contents =
        { (driveSteps [] steps lane).ownResult contents with
          seen := seen.reverse ++ ((driveSteps [] steps lane).ownResult contents).seen } := by
  induction steps generalizing seen lane with
  | zero => simp [driveSteps, ownDeliveries, ownResult]
  | succ steps ih =>
    simp only [driveSteps, ownDeliveries_bind, ownResult_bind]
    generalize lane.step.ownResult contents = result
    rcases result with ⟨error | ⟨bytes, samples⟩ | _, next⟩
    · simp [ownDeliveries, ownResult]
    · rcases ih next (⟨next.position, next.finished⟩ :: seen) with ⟨hdeliveries, hresult⟩
      rcases ih next [⟨next.position, next.finished⟩] with ⟨hothers, hother⟩
      dsimp only
      rw [hdeliveries, hresult, hothers, hother]
      simp
    · simp [ownDeliveries, ownResult]

variable {lane} {contents}

/-- More steps than there are bytes left make no difference. -/
theorem own_driveSteps_enough (hpositive : lane.CyclesPositive) (seen : List Sight)
    {steps others : ℕ} (hsteps : lane.source.left contents < steps)
    (hothers : lane.source.left contents < others) :
    (driveSteps seen steps lane).ownDeliveries contents =
        (driveSteps seen others lane).ownDeliveries contents ∧
      (driveSteps seen steps lane).ownResult contents =
        (driveSteps seen others lane).ownResult contents := by
  induction steps generalizing others seen lane with
  | zero => omega
  | succ steps ih =>
    cases others with
    | zero => omega
    | succ others =>
      have hlater := (lane.later_of_step (canReturn_ownResult contents _)).1
      have hleft := @left_step lane hpositive contents
      simp only [driveSteps, ownDeliveries_bind, ownResult_bind]
      generalize lane.step.ownResult contents = result at hlater hleft ⊢
      rcases result with ⟨error | ⟨bytes, samples⟩ | _, next⟩
      · exact ⟨rfl, rfl⟩
      · -- The cycle took bytes, so the steps that are left are still more than the bytes.
        have htaken := hleft rfl
        have hnext : next.CyclesPositive := hpositive.of_blocks hlater.blocks
        rcases ih hnext (⟨next.position, next.finished⟩ :: seen) (by omega : _ < steps)
          (by omega : _ < others) with ⟨hdeliveries, hresult⟩
        dsimp only
        rw [hdeliveries, hresult]
        exact ⟨rfl, rfl⟩
      · exact ⟨rfl, rfl⟩

/-- A lane that was driven to an end without a failure is finished, with the totals that came of
it. -/
theorem finished_of_driveSteps (hpositive : lane.CyclesPositive) (seen : List Sight) {steps : ℕ}
    (hsteps : lane.source.left contents < steps) {summary : LaneSummary}
    (hok : ((driveSteps seen steps lane).ownResult contents).outcome = .ok summary) :
    ((driveSteps seen steps lane).ownResult contents).lane.finished = true ∧
      ((driveSteps seen steps lane).ownResult contents).lane.summary = summary := by
  induction steps generalizing seen lane with
  | zero => omega
  | succ steps ih =>
    have hstep := lane.later_of_step (canReturn_ownResult contents _)
    have hleft := @left_step lane hpositive contents
    simp only [driveSteps, ownResult_bind] at hok ⊢
    generalize lane.step.ownResult contents = result at hstep hleft hok ⊢
    rcases result with ⟨error | ⟨bytes, samples⟩ | _, next⟩
    · cases hok
    · have htaken := hleft rfl
      have hnext : next.CyclesPositive := hpositive.of_blocks hstep.1.blocks
      exact ih hnext _ (by omega) hok
    · exact ⟨hstep.2 rfl, Except.ok.inj hok⟩

/-- Driving a finished lane delivers nothing and shows the lane once. -/
theorem drive_of_finished (hfinished : lane.finished = true) :
    lane.drive = .done ⟨.ok lane.summary, [⟨lane.position, true⟩], lane⟩ := by
  unfold drive driveSteps step
  rw [if_pos hfinished]
  simp [Process.bind, hfinished]

/-- Driving a lane is a step, and then driving the lane that the step leaves. -/
theorem own_drive_of_step (hbounded : lane.Bounded contents) {outcome : Step} {next : Lane}
    (hstep : lane.step.ownResult contents = (.ok outcome, next)) :
    lane.drive.ownDeliveries contents =
        lane.step.ownDeliveries contents ++ next.drive.ownDeliveries contents ∧
      (lane.drive.ownResult contents).outcome = (next.drive.ownResult contents).outcome ∧
      (lane.drive.ownResult contents).lane = (next.drive.ownResult contents).lane := by
  have hreturn := lane.step.canReturn_ownResult contents
  rw [hstep] at hreturn
  rcases lane.later_of_step hreturn with ⟨hlater, hend⟩
  have hnext := hlater.bounded hbounded
  have hbound := lane.source.left_le_bound contents hbounded.contents_le
  have hboundNext := next.source.left_le_bound contents hnext.contents_le
  unfold drive
  rw [driveSteps, ownDeliveries_bind, ownResult_bind, hstep]
  cases outcome with
  | cycle bytes samples =>
    -- The lane goes on with one step fewer than it would have on its own: both are enough.
    have htaken := left_step lane hbounded.positive contents hstep
    rcases own_driveSteps_seen next contents [⟨next.position, next.finished⟩]
      lane.source.bound with ⟨hdeliveries, hresult⟩
    have hsteps : next.source.left contents < lane.source.bound := by omega
    have hstepsNext : next.source.left contents < next.source.bound + 1 := by omega
    rcases own_driveSteps_enough hnext.positive [] hsteps hstepsNext with ⟨hothers, hother⟩
    dsimp only
    rw [hdeliveries, hresult, hothers, hother]
    exact ⟨rfl, rfl, rfl⟩
  | endOfInput =>
    have hdone := drive_of_finished (hend rfl)
    unfold drive at hdone
    rw [hdone]
    exact ⟨rfl, rfl, rfl⟩

/-- A lane that is driven to an end without a failure is finished, with the totals that come of
it. -/
theorem finished_of_drive (hbounded : lane.Bounded contents) {summary : LaneSummary}
    (hok : (lane.drive.ownResult contents).outcome = .ok summary) :
    (lane.drive.ownResult contents).lane.finished = true ∧
      (lane.drive.ownResult contents).lane.summary = summary := by
  have hbound := lane.source.left_le_bound contents hbounded.contents_le
  exact finished_of_driveSteps hbounded.positive [] (by omega) hok

end OwnDrive

end Lane

end SampleDemux
