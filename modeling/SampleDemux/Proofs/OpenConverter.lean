import SampleDemux.Converter
import SampleDemux.Proofs.LaneProcess

/-!
# Converters as their operations leave them

Whatever was done with a converter, its registry has at most one sink for each stream, which was
made for it, and its lanes deliver every sample to the sink of the stream of the sample's record;
and every cycle of a lane takes a byte. Opening a descriptor brings this about, and reading
lanes, finishing sinks and closing keep it.
-/

namespace SampleDemux

namespace Catalog

variable {κ α : Type} [DecidableEq κ]

/-- A key that has no value is added with its value. -/
theorem alterEntries_perm [LT κ] [DecidableLT κ] {key : κ} (change : Option α → α)
    {entries : List (κ × α)} (h : key ∉ entries.map (·.1)) :
    (alterEntries key change entries).Perm ((key, change none) :: entries) := by
  induction entries with
  | nil => exact .refl _
  | cons entry entries ih =>
    rcases entry with ⟨other, value⟩
    rw [List.map_cons, List.mem_cons, not_or] at h
    rw [alterEntries, if_neg h.1]
    split
    · exact .refl _
    · exact ((ih h.2).cons (other, value)).trans (.swap ..)

/-- A key without a value has no entry. -/
theorem not_mem_of_find?_eq_none {catalog : Catalog κ α} {key : κ}
    (h : catalog.find? key = none) : key ∉ catalog.entries.map (·.1) := by
  intro hkey
  rcases List.mem_map.mp hkey with ⟨entry, hentry, rfl⟩
  rw [find?, Option.map_eq_none_iff, List.find?_eq_none] at h
  exact h entry hentry (decide_eq_true rfl)

/-- A value that is found is that of an entry. -/
theorem mem_of_find? {catalog : Catalog κ α} {key : κ} {value : α}
    (h : catalog.find? key = some value) : (key, value) ∈ catalog.entries := by
  rw [find?, Option.map_eq_some_iff] at h
  rcases h with ⟨⟨other, _⟩, hentry, rfl⟩
  have hsame : other = key := by simpa using List.find?_some hentry
  rw [← hsame]
  exact List.mem_of_find?_eq_some hentry

/-- An entry whose key has no other entry is found. -/
theorem find?_of_mem {catalog : Catalog κ α} (hkeys : (catalog.entries.map (·.1)).Nodup)
    {key : κ} {value : α} (h : (key, value) ∈ catalog.entries) :
    catalog.find? key = some value := by
  cases hfound : catalog.find? key with
  | none => exact absurd (List.mem_map_of_mem h) (not_mem_of_find?_eq_none hfound)
  | some other =>
    have hentry : (key, other) = (key, value) :=
      List.inj_on_of_nodup_map hkeys (mem_of_find? hfound) h rfl
    exact congrArg (fun entry => some entry.2) hentry

end Catalog

namespace Registry

variable {W S : Type} {kind : SinkKind W S} {registry later : Registry W S}

/-- A sound registry with one entry for each stream. -/
structure Consistent (registry : Registry W S) : Prop where
  /-- Every stream's number is that of a sink made for it. -/
  sound : registry.Sound
  /-- No stream has two entries. -/
  keys : (registry.sinks.entries.map (·.1)).Nodup

/-- A registry without streams is consistent, whatever sinks were made. -/
theorem Consistent.of_empty (hsinks : registry.sinks = {}) (hrecords : registry.records = {}) :
    registry.Consistent := by
  refine ⟨⟨fun _ _ h => ?_, fun _ _ h => ?_⟩, ?_⟩
  · rw [hsinks] at h
    cases h
  · rw [hrecords] at h
    cases h
  · rw [hsinks]
    exact .nil

/-- Sinks that keep something else are as consistent. -/
theorem SameStreams.consistent (h : registry.SameStreams later) (hregistry : registry.Consistent) :
    later.Consistent := by
  refine ⟨⟨fun stream number hnumber => ?_, fun stream record hrecord => ?_⟩, ?_⟩
  · rw [h.sinks] at hnumber
    rw [← List.getElem?_map, h.made, List.getElem?_map]
    exact hregistry.sound.sinks stream number hnumber
  · rw [h.records] at hrecord
    exact hregistry.sound.records stream record hrecord
  · rw [h.sinks]
    exact hregistry.keys

/-- Streams that stay as they are have the same sinks and records. -/
theorem SameStreams.grows (h : registry.SameStreams later) : registry.Grows later :=
  ⟨fun _ _ hsink => by rwa [h.sinks], fun _ _ hrecord => by rwa [h.records]⟩

/-- Streams with the same sink are the same. -/
theorem Consistent.stream_eq (h : registry.Consistent) {stream other : String} {number : ℕ}
    (hstream : registry.sinks.find? stream = some number)
    (hother : registry.sinks.find? other = some number) : stream = other := by
  have hone := h.sound.sinks _ _ hstream
  have htwo := h.sound.sinks _ _ hother
  rw [htwo, Option.some_inj] at hone
  exact hone.symm

/-- Different entries of a consistent registry have different sinks. -/
theorem Consistent.numbers_nodup (h : registry.Consistent) :
    (registry.sinks.entries.map (·.2)).Nodup := by
  have hentries : registry.sinks.entries.Nodup := List.Nodup.of_map _ h.keys
  -- A sink was made for one stream, so streams with the same sink are one entry.
  refine hentries.map_on fun first hfirst second hsecond hsame => ?_
  have hone := Catalog.find?_of_mem h.keys hfirst
  rw [hsame] at hone
  exact Prod.ext (h.stream_eq hone (Catalog.find?_of_mem h.keys hsecond)) hsame

/-- A sink that is given out is the stream's, in a registry that has grown. -/
theorem Consistent.sink_ok (h : registry.Consistent) {stream : String} {number : ℕ}
    (hsink : registry.sink kind stream = (.ok number, later)) :
    later.Consistent ∧ registry.Grows later ∧ later.sinks.find? stream = some number := by
  rcases h.sound.sink_ok hsink with ⟨hsound, hgrows, hnumber⟩
  refine ⟨⟨hsound, ?_⟩, hgrows, hnumber⟩
  unfold sink at hsink
  split at hsink
  · cases hsink
    exact h.keys
  · rename_i hnone
    split at hsink
    · cases hsink
    cases hsink
    have hnew := Catalog.not_mem_of_find?_eq_none hnone
    have hperm := (Catalog.alterEntries_perm (fun _ => registry.made.length) hnew).map (·.1)
    exact hperm.nodup_iff.mpr (List.nodup_cons.mpr ⟨hnew, h.keys⟩)

/-- A record that is given out is the stream's, in a registry that has grown. -/
theorem Consistent.recordOrInsert (h : registry.Consistent) (record : StreamRecord) :
    (registry.recordOrInsert record).2.Consistent ∧
      registry.Grows (registry.recordOrInsert record).2 ∧
      (registry.recordOrInsert record).2.records.find? record.id =
        some (registry.recordOrInsert record).1 := by
  rcases recordOrInsert_of_sound h.sound record with
    ⟨entered, after, hrecord, hsound, hgrows, hfound⟩
  have hsinks : (registry.recordOrInsert record).2.sinks = registry.sinks := by
    unfold Registry.recordOrInsert
    split <;> rfl
  rw [hrecord] at hsinks ⊢
  exact ⟨⟨hsound, by rw [hsinks]; exact h.keys⟩, hgrows, hfound⟩

end Registry

section Attach

variable {W S : Type} (kind : SinkKind W S)

/-- Attaching that succeeds in a consistent registry only adds to it, and gives what is wanted of
the registry behind it. -/
def AttachesOk {α : Type} (attach : Registry W S → Except ConvertError α × Registry W S)
    (wanted : Registry W S → α → Prop) : Prop :=
  ∀ (registry later : Registry W S) (result : α), registry.Consistent →
    attach registry = (.ok result, later) →
      later.Consistent ∧ registry.Grows later ∧ wanted later result

/-- Streams that were bound are bound. -/
theorem ChunkRunner.bindStreams_attachesOk (records : List StreamRecord) :
    AttachesOk (bindStreams kind records) fun later bindings =>
      List.Forall₂ (Binding.Bound later) records bindings := by
  induction records with
  | nil =>
    intro registry later bindings hregistry hbind
    cases hbind
    exact ⟨hregistry, .refl registry, .nil⟩
  | cons record records ih =>
    intro registry later bindings hregistry hbind
    rcases hregistry.recordOrInsert record with ⟨hentered, hgrows, hfound⟩
    have hid := hentered.sound.records _ _ hfound
    unfold bindStreams at hbind
    dsimp only at hbind
    split at hbind
    · cases hbind
    rename_i number between hsink
    split at hbind
    · cases hbind
    rename_i rest final hrest
    cases hbind
    rw [hid] at hsink
    rcases hentered.sink_ok hsink with ⟨hbetween, hgrowsNext, hnumber⟩
    rcases ih _ _ _ hbetween hrest with ⟨hfinal, hgrowsRest, hbindings⟩
    refine ⟨hfinal, (hgrows.trans hgrowsNext).trans hgrowsRest, .cons ⟨?_, ?_⟩ hbindings⟩
    · exact hgrowsRest.sinks _ _ hnumber
    · exact hgrowsRest.records _ _ (hgrowsNext.records _ _ hfound)

/-- A chunk that was attached is attached. -/
theorem ChunkRunner.attach_attachesOk (plan : ChunkPlan) :
    AttachesOk (attach kind plan) fun later runner => ChunkRunner.Attached later plan runner := by
  intro registry later runner hregistry hattach
  unfold attach at hattach
  split at hattach
  · cases hattach
  rename_i bindings final hbind
  cases hattach
  rcases bindStreams_attachesOk kind plan.streams _ _ _ hregistry hbind with
    ⟨hfinal, hgrows, hbindings⟩
  exact ⟨hfinal, hgrows, rfl, hbindings⟩

/-- What was attached one after the other is attached all together, if growing registries keep what
is wanted of the first. -/
theorem AttachesOk.cons {α γ : Type}
    {attach : Registry W S → Except ConvertError α × Registry W S}
    {attachRest attachAll : Registry W S → Except ConvertError (List α) × Registry W S}
    {wanted : Registry W S → γ → α → Prop} {plan : γ} {plans : List γ}
    (hfirst : AttachesOk attach fun later => wanted later plan)
    (hrest : AttachesOk attachRest fun later => List.Forall₂ (wanted later) plans)
    (hmono : ∀ {registry later : Registry W S} {result : α},
      wanted registry plan result → registry.Grows later → wanted later plan result)
    (hall : ∀ {registry later : Registry W S} {results : List α},
      attachAll registry = (.ok results, later) →
        ∃ result between rest, attach registry = (.ok result, between) ∧
          attachRest between = (.ok rest, later) ∧ results = result :: rest) :
    AttachesOk attachAll fun later => List.Forall₂ (wanted later) (plan :: plans) := by
  intro registry later results hregistry hattach
  rcases hall hattach with ⟨result, between, rest, hone, hothers, rfl⟩
  rcases hfirst _ _ _ hregistry hone with ⟨hbetween, hgrows, hwanted⟩
  rcases hrest _ _ _ hbetween hothers with ⟨hlater, hgrowsRest, hresults⟩
  exact ⟨hlater, hgrows.trans hgrowsRest, .cons (hmono hwanted hgrowsRest) hresults⟩

/-- Nothing is attached at once. -/
theorem AttachesOk.nil {α γ : Type}
    {attachAll : Registry W S → Except ConvertError (List α) × Registry W S}
    {wanted : Registry W S → γ → α → Prop}
    (hall : ∀ registry, attachAll registry = (.ok [], registry)) :
    AttachesOk attachAll fun later => List.Forall₂ (wanted later) [] := by
  intro registry later results hregistry hattach
  rw [hall] at hattach
  cases hattach
  exact ⟨hregistry, .refl registry, .nil⟩

variable {kind} in
/-- Chunks are attached one after the other. -/
theorem BlockRunner.attachChunks_cons {plan : ChunkPlan} {plans : List ChunkPlan}
    {registry later : Registry W S} {runners : List ChunkRunner}
    (hattach : attachChunks kind (plan :: plans) registry = (.ok runners, later)) :
    ∃ runner between rest, ChunkRunner.attach kind plan registry = (.ok runner, between) ∧
      attachChunks kind plans between = (.ok rest, later) ∧ runners = runner :: rest := by
  unfold attachChunks at hattach
  split at hattach
  · cases hattach
  rename_i chunk between hchunk
  split at hattach
  · cases hattach
  rename_i chunks final hchunks
  cases hattach
  exact ⟨chunk, between, chunks, hchunk, hchunks, rfl⟩

/-- Chunks that were attached are attached. -/
theorem BlockRunner.attachChunks_attachesOk (plans : List ChunkPlan) :
    AttachesOk (attachChunks kind plans) fun later runners =>
      List.Forall₂ (ChunkRunner.Attached later) plans runners := by
  induction plans with
  | nil => exact .nil fun _ => rfl
  | cons plan plans ih =>
    exact (ChunkRunner.attach_attachesOk kind plan).cons ih (·.mono) attachChunks_cons

/-- A block that was attached is attached. -/
theorem BlockRunner.attach_attachesOk (plan : BlockPlan) :
    AttachesOk (attach kind plan) fun later runner => BlockRunner.Attached later plan runner := by
  intro registry later runner hregistry hattach
  unfold attach at hattach
  split at hattach
  · cases hattach
  rename_i chunks final hchunks
  cases hattach
  rcases attachChunks_attachesOk kind plan.chunks _ _ _ hregistry hchunks with
    ⟨hfinal, hgrows, hattached⟩
  exact ⟨hfinal, hgrows, rfl, rfl, rfl, hattached⟩

variable {kind} in
/-- Blocks are attached one after the other. -/
theorem Lane.attachBlocks_cons {plan : BlockPlan} {plans : List BlockPlan}
    {registry later : Registry W S} {runners : List BlockRunner}
    (hattach : attachBlocks kind (plan :: plans) registry = (.ok runners, later)) :
    ∃ runner between rest, BlockRunner.attach kind plan registry = (.ok runner, between) ∧
      attachBlocks kind plans between = (.ok rest, later) ∧ runners = runner :: rest := by
  unfold attachBlocks at hattach
  split at hattach
  · cases hattach
  rename_i block between hblock
  split at hattach
  · cases hattach
  rename_i blocks final hblocks
  cases hattach
  exact ⟨block, between, blocks, hblock, hblocks, rfl⟩

/-- Blocks that were attached are attached. -/
theorem Lane.attachBlocks_attachesOk (plans : List BlockPlan) :
    AttachesOk (attachBlocks kind plans) fun later runners =>
      List.Forall₂ (BlockRunner.Attached later) plans runners := by
  induction plans with
  | nil => exact .nil fun _ => rfl
  | cons plan plans ih =>
    exact (BlockRunner.attach_attachesOk kind plan).cons ih (·.mono) attachBlocks_cons

/-- A lane has the name of its declaration, and the blocks of the plan of its declaration, attached
in a registry. -/
structure Lane.OpenedFrom (descriptor : Descriptor) (registry : Registry W S) (decl : LaneDecl)
    (lane : Lane) : Prop where
  /-- The lane has the declared identifier. -/
  id : lane.id = decl.id
  /-- So have its totals. -/
  totals : lane.summary.lane = decl.id
  /-- It has the blocks of the plan. -/
  blocks : ∃ plan, LanePlan.build descriptor decl = .ok plan ∧
    List.Forall₂ (BlockRunner.Attached registry) plan.blocks lane.blocks

/-- A lane that was opened stays so while it and others are read or closed and further sinks are
made. -/
theorem Lane.OpenedFrom.mono {descriptor : Descriptor} {registry later : Registry W S}
    {decl : LaneDecl} {lane next : Lane} (h : lane.OpenedFrom descriptor registry decl)
    (halike : lane.Alike next) (hgrows : registry.Grows later) :
    next.OpenedFrom descriptor later decl where
  id := halike.id.trans h.id
  totals := halike.totals.trans h.totals
  blocks := by
    obtain ⟨plan, hplan, hblocks⟩ := h.blocks
    rw [halike.blocks]
    exact ⟨plan, hplan, hblocks.imp fun _ _ hblock => hblock.mono hgrows⟩

/-- A lane that was started has the name and the blocks of its plan. -/
theorem Lane.start_attachesOk (plan : LanePlan) (source : ByteSource) :
    AttachesOk (start kind plan source) fun later lane =>
      lane.id = plan.id ∧ lane.summary.lane = plan.id ∧
        List.Forall₂ (BlockRunner.Attached later) plan.blocks lane.blocks := by
  intro registry later lane hregistry hstart
  have hfetch := (Process.run_canReturn kind (source.fetchSkip plan.file.offset) registry).2
  unfold start at hstart
  dsimp only at hstart
  split at hstart
  · cases hstart
  split at hstart
  · cases hstart
  rename_i blocks final hblocks
  cases hstart
  rcases attachBlocks_attachesOk kind plan.blocks _ _ _ (hfetch.consistent hregistry) hblocks with
    ⟨hfinal, hgrows, hattached⟩
  exact ⟨hfinal, hfetch.grows.trans hgrows, rfl, rfl, hattached⟩

/-- A lane that was started has the name of its declaration and the blocks of its plan. -/
theorem Converter.startLane_attachesOk (opener : Opener) (descriptor : Descriptor)
    (directory : Path) (decl : LaneDecl) :
    AttachesOk (startLane kind opener descriptor directory decl) fun later lane =>
      lane.OpenedFrom descriptor later decl := by
  intro registry later lane hregistry hstart
  unfold startLane at hstart
  split at hstart
  · cases hstart
  rename_i plan hplan
  dsimp only at hstart
  split at hstart
  · cases hstart
  rename_i source hsource
  rcases Lane.start_attachesOk kind plan source _ _ _ hregistry hstart with
    ⟨hlater, hgrows, hid, htotals, hblocks⟩
  have hname := (LanePlan.builtFrom_of_build hplan).id
  exact ⟨hlater, hgrows, hid.trans hname, htotals.trans hname, plan, hplan, hblocks⟩

variable {kind} in
/-- Lanes are started one after the other. -/
theorem Converter.startLanes_cons {opener : Opener} {descriptor : Descriptor} {directory : Path}
    {decl : LaneDecl} {decls : List LaneDecl} {registry later : Registry W S} {lanes : List Lane}
    (hstart : startLanes kind opener descriptor directory (decl :: decls) registry =
      (.ok lanes, later)) :
    ∃ lane between rest,
      startLane kind opener descriptor directory decl registry = (.ok lane, between) ∧
      startLanes kind opener descriptor directory decls between = (.ok rest, later) ∧
      lanes = lane :: rest := by
  unfold startLanes at hstart
  split at hstart
  · cases hstart
  rename_i lane between hlane
  split at hstart
  · cases hstart
  rename_i lanes final hlanes
  cases hstart
  exact ⟨lane, between, lanes, hlane, hlanes, rfl⟩

/-- Lanes that were started have the names of their declarations and the blocks of their plans. -/
theorem Converter.startLanes_attachesOk (opener : Opener) (descriptor : Descriptor)
    (directory : Path) (decls : List LaneDecl) :
    AttachesOk (startLanes kind opener descriptor directory decls) fun later lanes =>
      List.Forall₂ (Lane.OpenedFrom descriptor later) decls lanes := by
  induction decls with
  | nil => exact .nil fun _ => rfl
  | cons decl decls ih =>
    exact (startLane_attachesOk kind opener descriptor directory decl).cons ih
      (fun hlane hgrows => hlane.mono (.refl _) hgrows) startLanes_cons

end Attach

namespace Lane

/-- The bindings of a lane's chunks. -/
def bindings (lane : Lane) : List Binding :=
  lane.blocks.flatMap fun block => block.chunks.flatMap (·.bindings)

/-- Identities of the streams that a lane declares. -/
def streams (lane : Lane) : List String := lane.bindings.map (·.record.id)

/-- What a lane may deliver goes to the sink of one of its bindings, with the binding's record. -/
theorem feeds_iff {lane : Lane} {delivery : Delivery} :
    lane.Feeds delivery ↔ ∃ binding ∈ lane.bindings,
      delivery.sink = binding.sink ∧ delivery.record = binding.record := by
  simp only [Feeds, BlockRunner.Feeds, ChunkRunner.Feeds, bindings, List.mem_flatMap]
  constructor
  · rintro ⟨block, hblock, chunk, hchunk, binding, hbinding, hdelivery⟩
    exact ⟨binding, ⟨block, hblock, chunk, hchunk, hbinding⟩, hdelivery⟩
  · rintro ⟨binding, ⟨block, hblock, chunk, hchunk, hbinding⟩, hdelivery⟩
    exact ⟨block, hblock, chunk, hchunk, binding, hbinding, hdelivery⟩

variable {W S : Type} {registry later : Registry W S} {lane next : Lane}

/-- A lane of an open converter: its cycles take bytes, and its sinks are those of the streams of
its records. -/
structure Attached (registry : Registry W S) (lane : Lane) : Prop where
  /-- Every cycle takes a byte. -/
  positive : lane.CyclesPositive
  /-- The sink of a binding is that of the stream of the binding's record. -/
  bindings : ∀ binding ∈ lane.bindings,
    registry.sinks.find? binding.record.id = some binding.sink

/-- A lane has the bindings of its blocks. -/
theorem bindings_eq (h : next.blocks = lane.blocks) : next.bindings = lane.bindings := by
  unfold bindings
  rw [h]

/-- A lane stays attached while it and others are read or closed. -/
theorem Attached.of_blocks (h : lane.Attached registry) (hnext : next.blocks = lane.blocks)
    (hsame : registry.SameStreams later) : next.Attached later where
  positive := h.positive.of_blocks hnext
  bindings := by
    intro binding hbinding
    rw [bindings_eq hnext] at hbinding
    rw [hsame.sinks]
    exact h.bindings binding hbinding

end Lane

/-- Identities of the streams that a declared lane declares, those of each chunk once. -/
def LaneDecl.streamIds (decl : LaneDecl) : List String :=
  decl.blocks.flatMap fun block => block.chunks.flatMap fun chunk =>
    ((chunk.lumps.flatMap (·.streams)).map (·.id)).eraseDups

section Opened

variable {W S : Type} {registry : Registry W S}

/-- The record of a binding is its stream's. -/
theorem Binding.Bound.id_eq {record : StreamRecord} {binding : Binding}
    (h : Binding.Bound registry record binding) (hregistry : registry.Sound) :
    binding.record.id = record.id :=
  hregistry.records _ _ h.record

/-- An attached block has the size of its plan. -/
theorem BlockRunner.Attached.size_eq {plan : BlockPlan} {runner : BlockRunner}
    (h : BlockRunner.Attached registry plan runner) : runner.size = plan.size := by
  have hsizes : plan.chunks.map (·.sizeBytes) = runner.chunks.map (·.plan.sizeBytes) := by
    simp only [List.map_eq_flatMap]
    refine flatMap_eq_of_forall₂ h.chunks fun hchunk => ?_
    rw [hchunk.plan_eq]
  rw [BlockRunner.size, plan.size_eq, BlockPlan.footerStart, hsizes, h.sizeHeader, h.sizeFooter]

/-- Every cycle of a lane takes a byte if its blocks are attached ones of plans that were built. -/
theorem Lane.cyclesPositive_of_attached {plans : List BlockPlan} {lane : Lane}
    (h : List.Forall₂ (BlockRunner.Attached registry) plans lane.blocks)
    (hbuilt : ∀ plan ∈ plans, plan.IsBuilt) : lane.CyclesPositive := by
  intro block hblock
  obtain ⟨plan, hmem, hattached⟩ := exists_mem_of_forall₂ h hblock
  rw [hattached.size_eq]
  exact (hbuilt plan hmem).size_pos

/-- A lane that was opened is attached. -/
theorem Lane.OpenedFrom.attached {descriptor : Descriptor} {decl : LaneDecl} {lane : Lane}
    (h : lane.OpenedFrom descriptor registry decl) (hregistry : registry.Sound) :
    lane.Attached registry := by
  obtain ⟨plan, hplan, hblocks⟩ := h.blocks
  have hbuilt := LanePlan.blocks_isBuilt_of_build hplan
  refine ⟨cyclesPositive_of_attached hblocks hbuilt, fun binding hbinding => ?_⟩
  rcases List.mem_flatMap.mp hbinding with ⟨block, hblock, hbinding⟩
  rcases List.mem_flatMap.mp hbinding with ⟨chunk, hchunk, hbinding⟩
  have hchunks : ∀ block ∈ lane.blocks, ∀ chunk ∈ block.chunks, ∀ binding ∈ chunk.bindings,
      registry.sinks.find? binding.record.id = some binding.sink :=
    forall_mem_of_forall₂ hblocks fun _ _ hattached =>
      forall_mem_of_forall₂ hattached.chunks fun _ _ hchunk =>
        forall_mem_of_forall₂ hchunk.bindings fun record binding hbound => by
          rw [hbound.id_eq hregistry]
          exact hbound.sink
  exact hchunks block hblock chunk hchunk binding hbinding

/-- A lane that was opened has the streams of its declaration. -/
theorem Lane.OpenedFrom.streams_eq {descriptor : Descriptor} {decl : LaneDecl} {lane : Lane}
    (h : lane.OpenedFrom descriptor registry decl) (hregistry : registry.Sound) :
    lane.streams = decl.streamIds := by
  obtain ⟨plan, hplan, hblocks⟩ := h.blocks
  have hdeclared := (LanePlan.builtFrom_of_build hplan).blocks
  have hchunk {chunkPlan : ChunkPlan} {runner : ChunkRunner}
      (hattached : ChunkRunner.Attached registry chunkPlan runner) :
      chunkPlan.streams.map (·.id) = runner.bindings.map (·.record.id) := by
    simp only [List.map_eq_flatMap]
    refine flatMap_eq_of_forall₂ hattached.bindings fun hbound => ?_
    rw [hbound.id_eq hregistry]
  have hplans : decl.streamIds = plan.blocks.flatMap fun block =>
      block.chunks.flatMap fun chunk => chunk.streams.map (·.id) := by
    refine flatMap_eq_of_forall₂ hdeclared fun hblock => ?_
    refine flatMap_eq_of_forall₂ (BlockPlan.forall₂_of_build hblock) fun hchunk => ?_
    rcases ChunkPlan.build_ok hchunk with ⟨layouts, hbuilt⟩
    exact hbuilt.records.ids.symm
  have hrunners : (plan.blocks.flatMap fun block =>
      block.chunks.flatMap fun chunk => chunk.streams.map (·.id)) =
        lane.blocks.flatMap fun block =>
          block.chunks.flatMap fun chunk => chunk.bindings.map (·.record.id) := by
    refine flatMap_eq_of_forall₂ hblocks fun hattached => ?_
    exact flatMap_eq_of_forall₂ hattached.chunks fun hattached => hchunk hattached
  rw [hplans, hrunners, Lane.streams, Lane.bindings, List.map_flatMap]
  simp only [List.map_flatMap]

end Opened

namespace Converter

variable {W S : Type}

/-- A converter as its operations leave it. -/
inductive Reachable (kind : SinkKind W S) (opener : Opener) : Converter W S → Prop
  /-- A new converter. -/
  | new (world : W) : Reachable kind opener (.new kind world opener)
  /-- A descriptor was opened, or was not. -/
  | openDescriptor {converter : Converter W S} (h : Reachable kind opener converter)
      (descriptor : Descriptor) (directory : Path) :
      Reachable kind opener (converter.openDescriptor descriptor directory).2
  /-- The lanes were run. -/
  | runWith {converter : Converter W S} (h : Reachable kind opener converter) (mode : RunMode) :
      Reachable kind opener (converter.runWith mode).2
  /-- A lane was stepped. -/
  | stepLane {converter : Converter W S} (h : Reachable kind opener converter) (index : ℕ) :
      Reachable kind opener (converter.stepLane index).2
  /-- A lane was run. -/
  | runLane {converter : Converter W S} (h : Reachable kind opener converter) (index : ℕ) :
      Reachable kind opener (converter.runLane index).2
  /-- A lane was closed. -/
  | closeLane {converter : Converter W S} (h : Reachable kind opener converter) (index : ℕ) :
      Reachable kind opener (converter.closeLane index).2
  /-- The converter was closed. -/
  | close {converter : Converter W S} (h : Reachable kind opener converter) :
      Reachable kind opener converter.close

/-- A converter whose lanes deliver to sinks of a consistent registry. -/
structure Consistent (converter : Converter W S) : Prop where
  /-- The registry is consistent. -/
  registry : converter.registry.Consistent
  /-- The lanes are attached. -/
  lanes : ∀ lane ∈ converter.lanes, lane.Attached converter.registry
  /-- A converter that is not open has no lanes. -/
  closed : converter.isOpen = false → converter.lanes = []

/-- A converter is another one after lanes were read or closed and sinks were given samples or
finished: its lanes have the same names and blocks, and its streams the same sinks. -/
structure SameShape (converter later : Converter W S) : Prop where
  /-- The lanes are alike. -/
  lanes : List.Forall₂ Lane.Alike converter.lanes later.lanes
  /-- The streams have the same sinks. -/
  registry : converter.registry.SameStreams later.registry
  /-- The sinks are of the same kind. -/
  kind : later.kind = converter.kind
  /-- The converter is as open. -/
  isOpen : later.isOpen = converter.isOpen

variable {converter later : Converter W S}

/-- A converter has its own shape. -/
theorem SameShape.refl (converter : Converter W S) : converter.SameShape converter :=
  ⟨List.forall₂_same.mpr fun lane _ => .refl lane, .refl _, rfl, rfl⟩

/-- A converter has the shape of one that has its shape. -/
theorem SameShape.trans {last : Converter W S} (h : converter.SameShape later)
    (hnext : later.SameShape last) : converter.SameShape last where
  lanes := forall₂_comp h.lanes hnext.lanes fun halike hlast => halike.trans hlast
  registry := h.registry.trans hnext.registry
  kind := hnext.kind.trans h.kind
  isOpen := hnext.isOpen.trans h.isOpen

/-- A converter of the same shape is as consistent. -/
theorem SameShape.consistent (h : converter.SameShape later) (hconverter : converter.Consistent) :
    later.Consistent where
  registry := h.registry.consistent hconverter.registry
  lanes := by
    intro lane hlane
    obtain ⟨before, hbefore, halike⟩ := exists_mem_of_forall₂ h.lanes hlane
    exact (hconverter.lanes before hbefore).of_blocks halike.blocks h.registry
  closed := by
    intro hclosed
    rw [h.isOpen] at hclosed
    have hlanes := h.lanes
    rw [hconverter.closed hclosed] at hlanes
    exact List.forall₂_nil_left_iff.mp hlanes

/-- Replacing a lane by one like it leaves the shape. -/
theorem SameShape.set {index : ℕ} {lane next : Lane} (h : converter.lanes[index]? = some lane)
    (hnext : lane.Alike next) {registry : Registry W S}
    (hregistry : converter.registry.SameStreams registry) :
    converter.SameShape { converter with registry, lanes := converter.lanes.set index next } where
  lanes := by
    rcases List.getElem?_eq_some_iff.mp h with ⟨hbound, hlane⟩
    refine List.forall₂_iff_get.mpr ⟨(List.length_set ..).symm, fun place hl hr => ?_⟩
    simp only [List.get_eq_getElem, List.getElem_set]
    by_cases hsame : index = place
    · subst hsame
      rw [if_pos rfl, hlane]
      exact hnext
    · rw [if_neg hsame]
      exact .refl _
  registry := hregistry
  kind := rfl
  isOpen := rfl

variable (kind : SinkKind W S)

/-- Driving lanes one after the other leaves what they are and the streams. -/
theorem driveInOrder_shape (lanes : List Lane) (registry : Registry W S) :
    List.Forall₂ Lane.Alike lanes
        (driveInOrder kind lanes registry).2.1 ∧
      registry.SameStreams (driveInOrder kind lanes registry).2.2 := by
  induction lanes generalizing registry with
  | nil => exact ⟨.nil, .refl registry⟩
  | cons lane lanes ih =>
    rcases Process.run_canReturn kind lane.drive registry with ⟨hdrive, hfirst⟩
    have halike := (lane.later_of_driveSteps _ _ hdrive).toAlike
    unfold driveInOrder
    generalize lane.drive.run kind registry = result at hfirst halike ⊢
    rcases result with ⟨⟨error | summary, seen, next⟩, between⟩
    · exact ⟨.cons halike (List.forall₂_same.mpr fun lane _ => .refl lane), hfirst⟩
    · rcases ih between with ⟨hlanes, hrest⟩
      exact ⟨.cons halike hlanes, hfirst.trans hrest⟩

/-- Driving lanes by turns leaves what they are and the streams. -/
theorem driveByTurns_shape (schedule : List ℕ) (lanes : List Lane) (registry : Registry W S) :
    List.Forall₂ Lane.Alike lanes
        (driveByTurns kind schedule lanes registry).2.1 ∧
      registry.SameStreams (driveByTurns kind schedule lanes registry).2.2 := by
  rcases Process.interleave_canReturn kind schedule (lanes.map Lane.drive) registry with
    ⟨hdrives, hregistry⟩
  refine ⟨?_, hregistry⟩
  unfold driveByTurns
  dsimp only
  generalize (Process.interleave kind schedule (lanes.map Lane.drive) registry).1 = drives
    at hdrives ⊢
  rw [List.forall₂_map_left_iff] at hdrives
  rw [List.forall₂_map_right_iff]
  exact hdrives.imp fun lane drive hdrive => (lane.later_of_driveSteps _ _ hdrive).toAlike

/-- The lanes of a converter driven in a mode. -/
def driveLanes (converter : Converter W S) : RunMode → RunReport × List Lane × Registry W S
  | .sequential => driveInOrder converter.kind converter.lanes converter.registry
  | .parallel schedule =>
    driveByTurns converter.kind schedule converter.lanes converter.registry

/-- Driving the lanes of a converter leaves what they are and the streams. -/
theorem driveLanes_shape (converter : Converter W S) (mode : RunMode) :
    List.Forall₂ Lane.Alike converter.lanes
        (converter.driveLanes mode).2.1 ∧
      converter.registry.SameStreams (converter.driveLanes mode).2.2 := by
  cases mode with
  | sequential => exact driveInOrder_shape converter.kind converter.lanes converter.registry
  | parallel schedule =>
    exact driveByTurns_shape converter.kind schedule converter.lanes converter.registry

/-- A converter that is not open is not run. -/
theorem runWith_of_closed (hclosed : converter.isOpen = false) (mode : RunMode) :
    converter.runWith mode = (⟨.error .notOpen, []⟩, converter) := by
  unfold runWith
  rw [hclosed, if_neg Bool.false_ne_true]

/-- A run drives the lanes, and then finishes the sinks if no lane failed. -/
theorem runWith_of_open (hopen : converter.isOpen = true) (mode : RunMode) :
    converter.runWith mode =
      match converter.driveLanes mode with
      | (report, lanes, registry) =>
        match report.outcome with
        | .error _ => (report, { converter with lanes, registry })
        | .ok _ =>
          match registry.finishAll converter.kind with
          | (.error error, registry) =>
            ({ report with outcome := .error error }, { converter with lanes, registry })
          | (.ok (), registry) => (report, { converter with lanes, registry }) := by
  unfold runWith
  rw [if_pos hopen]
  cases mode <;> rfl

/-- A run in which a lane fails ends with that failure, and no sink is finished. -/
theorem runWith_of_error (hopen : converter.isOpen = true) (mode : RunMode) {error : ConvertError}
    (h : (converter.driveLanes mode).1.outcome = .error error) :
    converter.runWith mode = ((converter.driveLanes mode).1,
      { converter with
        lanes := (converter.driveLanes mode).2.1
        registry := (converter.driveLanes mode).2.2 }) := by
  rw [runWith_of_open hopen]
  generalize converter.driveLanes mode = driven at h ⊢
  rcases driven with ⟨⟨outcome, seen⟩, lanes, registry⟩
  dsimp only at h ⊢
  subst h
  rfl

/-- A run in which no lane fails ends with finishing the sinks. -/
theorem runWith_of_ok (hopen : converter.isOpen = true) (mode : RunMode)
    {summaries : List LaneSummary} (h : (converter.driveLanes mode).1.outcome = .ok summaries) :
    converter.runWith mode =
      ({ (converter.driveLanes mode).1 with
          outcome := ((converter.driveLanes mode).2.2.finishAll converter.kind).1.map
            fun _ => summaries },
        { converter with
          lanes := (converter.driveLanes mode).2.1
          registry := ((converter.driveLanes mode).2.2.finishAll converter.kind).2 }) := by
  rw [runWith_of_open hopen]
  generalize converter.driveLanes mode = driven at h ⊢
  rcases driven with ⟨⟨outcome, seen⟩, lanes, registry⟩
  dsimp only at h ⊢
  subst h
  rcases registry.finishAll converter.kind with ⟨error | _, finished⟩ <;> rfl

/-- Running a converter leaves its shape. -/
theorem runWith_shape (converter : Converter W S) (mode : RunMode) :
    converter.SameShape (converter.runWith mode).2 := by
  cases hopen : converter.isOpen with
  | false =>
    rw [runWith_of_closed hopen]
    exact .refl converter
  | true =>
    rcases converter.driveLanes_shape mode with ⟨hlanes, hregistry⟩
    cases houtcome : (converter.driveLanes mode).1.outcome with
    | error error =>
      rw [runWith_of_error hopen mode houtcome]
      exact ⟨hlanes, hregistry, rfl, rfl⟩
    | ok summaries =>
      rw [runWith_of_ok hopen mode houtcome]
      exact ⟨hlanes, hregistry.trans (Registry.finishEntries_sameStreams _), rfl, rfl⟩

/-- Stepping a lane leaves the shape. -/
theorem stepLane_shape (converter : Converter W S) (index : ℕ) :
    converter.SameShape (converter.stepLane index).2 := by
  unfold stepLane
  cases hlane : converter.lanes[index]? with
  | none => exact .refl converter
  | some lane =>
    rcases Process.run_canReturn converter.kind lane.step converter.registry with
      ⟨hstep, hregistry⟩
    exact .set hlane (lane.later_of_step hstep).1.toAlike hregistry

/-- Running a lane leaves the shape. -/
theorem runLane_shape (converter : Converter W S) (index : ℕ) :
    converter.SameShape (converter.runLane index).2 := by
  unfold runLane
  cases hlane : converter.lanes[index]? with
  | none => exact .refl converter
  | some lane =>
    rcases Process.run_canReturn converter.kind lane.run converter.registry with
      ⟨hrun, hregistry⟩
    rcases Process.canReturn_map.mp hrun with ⟨drive, hdrive, hresult⟩
    have halike := (lane.later_of_driveSteps _ _ hdrive).toAlike
    refine .set hlane ?_ hregistry
    have hnext : drive.lane = (lane.run.run converter.kind converter.registry).1.2 :=
      congrArg Prod.snd hresult
    rwa [hnext] at halike

/-- Closing a lane leaves the shape. -/
theorem closeLane_shape (converter : Converter W S) (index : ℕ) :
    converter.SameShape (converter.closeLane index).2 := by
  unfold closeLane
  cases hlane : converter.lanes[index]? with
  | none => exact .refl converter
  | some lane =>
    have halike : lane.Alike lane.close := ⟨rfl, rfl, rfl⟩
    exact .set hlane halike (.refl _)

/-- A converter that is open is not opened again. -/
theorem openDescriptor_of_open (hopen : converter.isOpen = true) (descriptor : Descriptor)
    (directory : Path) :
    converter.openDescriptor descriptor directory = (.error .alreadyOpen, converter) := by
  unfold Converter.openDescriptor
  rw [if_pos hopen]

/-- A converter that is not open comes to nothing if a lane cannot be started, and else has the
lanes. -/
theorem openDescriptor_of_closed (hclosed : converter.isOpen = false) (descriptor : Descriptor)
    (directory : Path) :
    converter.openDescriptor descriptor directory =
      match startLanes converter.kind converter.opener descriptor directory descriptor.lanes
        converter.registry with
      | (.error error, registry) => (.error error, { converter with registry := registry.clear })
      | (.ok lanes, registry) => (.ok (), { converter with registry, lanes, isOpen := true }) := by
  unfold Converter.openDescriptor
  rw [hclosed]
  exact if_neg Bool.false_ne_true

/-- A descriptor that was opened was opened in a converter that was not open, and every lane was
started. -/
theorem exists_startLanes {descriptor : Descriptor} {directory : Path}
    (hok : (converter.openDescriptor descriptor directory).1 = .ok ()) :
    converter.isOpen = false ∧ ∃ lanes registry,
      startLanes converter.kind converter.opener descriptor directory descriptor.lanes
        converter.registry = (.ok lanes, registry) ∧
      (converter.openDescriptor descriptor directory).2 =
        { converter with registry, lanes, isOpen := true } := by
  cases hopen : converter.isOpen with
  | true =>
    rw [openDescriptor_of_open hopen] at hok
    cases hok
  | false =>
    rw [openDescriptor_of_closed hopen] at hok ⊢
    cases hstart : startLanes converter.kind converter.opener descriptor directory
      descriptor.lanes converter.registry with
    | mk result registry =>
      rw [hstart] at hok
      cases result with
      | error error => cases hok
      | ok lanes => exact ⟨rfl, lanes, registry, rfl, rfl⟩

/-- Opening a descriptor leaves a converter consistent. -/
theorem Consistent.openDescriptor (h : converter.Consistent) (descriptor : Descriptor)
    (directory : Path) : (converter.openDescriptor descriptor directory).2.Consistent := by
  cases hopen : converter.isOpen with
  | true =>
    rw [openDescriptor_of_open hopen]
    exact h
  | false =>
    rw [openDescriptor_of_closed hopen]
    rcases hstart : startLanes converter.kind converter.opener descriptor directory
      descriptor.lanes converter.registry with ⟨error | lanes, registry⟩
    · have hnone := h.closed hopen
      exact ⟨.of_empty rfl rfl, fun lane hlane => by simp [hnone] at hlane, fun _ => hnone⟩
    · rcases startLanes_attachesOk converter.kind converter.opener descriptor directory
        descriptor.lanes _ _ _ h.registry hstart with ⟨hregistry, -, hlanes⟩
      exact ⟨hregistry, forall_mem_of_forall₂ hlanes fun _ _ hlane =>
        hlane.attached hregistry.sound, nofun⟩

/-- The lanes of a descriptor that was opened are those that it declares. -/
theorem Consistent.lanes_of_openDescriptor (h : converter.Consistent) {descriptor : Descriptor}
    {directory : Path} (hok : (converter.openDescriptor descriptor directory).1 = .ok ()) :
    List.Forall₂ (Lane.OpenedFrom descriptor
        (converter.openDescriptor descriptor directory).2.registry)
      descriptor.lanes (converter.openDescriptor descriptor directory).2.lanes := by
  obtain ⟨-, lanes, registry, hstart, hopened⟩ := exists_startLanes hok
  have hlanes := startLanes_attachesOk converter.kind converter.opener descriptor directory
    descriptor.lanes _ _ _ h.registry hstart
  rw [hopened]
  exact hlanes.2.2

/-- The lanes of a descriptor that was opened have the streams that it declares. -/
theorem Consistent.streams_of_openDescriptor (h : converter.Consistent) {descriptor : Descriptor}
    {directory : Path} (hok : (converter.openDescriptor descriptor directory).1 = .ok ()) :
    (converter.openDescriptor descriptor directory).2.lanes.map (·.streams) =
      descriptor.lanes.map (·.streamIds) := by
  have hsound := (h.openDescriptor descriptor directory).registry.sound
  have hlanes := h.lanes_of_openDescriptor hok
  exact (map_eq_of_forall₂ hlanes fun _ _ _ hlane => (hlane.streams_eq hsound).symm).symm

/-- A converter is consistent as its operations leave it. -/
theorem Reachable.consistent {opener : Opener} (h : Reachable kind opener converter) :
    converter.Consistent := by
  induction h with
  | new world => exact ⟨.of_empty rfl rfl, List.forall_mem_nil _, fun _ => rfl⟩
  | openDescriptor _ descriptor directory ih => exact ih.openDescriptor descriptor directory
  | runWith _ mode ih => exact (runWith_shape _ mode).consistent ih
  | stepLane _ index ih => exact (stepLane_shape _ index).consistent ih
  | runLane _ index ih => exact (runLane_shape _ index).consistent ih
  | closeLane _ index ih => exact (closeLane_shape _ index).consistent ih
  | close _ _ => exact ⟨.of_empty rfl rfl, List.forall_mem_nil _, fun _ => rfl⟩

end Converter

end SampleDemux
