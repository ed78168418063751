import SampleDemux.Proofs.OpenConverter

/-!
# The records of the declared streams

A stream may be declared more than once, in one lane or in several. Opening a descriptor enters the
record of every declared stream, lane by lane and in the order of the declarations; the record that
comes first stays. So the record of a stream is a function of the descriptor: it is made from the
first declaration of the stream's identity, with the first system of the lane that declares it and
the first band that it names.
-/

namespace SampleDemux

/-- The streams that a lane declares, in the order of the declarations. -/
def LaneDecl.streamDecls (lane : LaneDecl) : List StreamDecl :=
  lane.blocks.flatMap fun block => block.chunks.flatMap fun chunk =>
    chunk.lumps.flatMap (·.streams)

namespace Descriptor

variable (descriptor : Descriptor)

/-- The streams that a descriptor declares, each with its lane, in the order of the declarations. -/
def declarations : List (LaneDecl × StreamDecl) :=
  descriptor.lanes.flatMap fun lane => lane.streamDecls.map fun stream => (lane, stream)

/-- The system that clocks a declared lane. -/
def clock? (lane : LaneDecl) : Option System := lane.systems.head?.bind descriptor.system?

/-- The record of a declared stream that a system clocks. -/
def clockedRecord? (system : System) (stream : StreamDecl) : Option StreamRecord :=
  (stream.bands.head?.bind descriptor.band?).map fun band => .ofDecl stream system band

/-- The record of a declared stream of a lane. -/
def recordOf? (declaration : LaneDecl × StreamDecl) : Option StreamRecord :=
  (descriptor.clock? declaration.1).bind fun system =>
    descriptor.clockedRecord? system declaration.2

/-- The record that a descriptor gives to an identity: that of its first declaration. -/
def record? (id : String) : Option StreamRecord :=
  (descriptor.declarations.find? (·.2.id == id)).bind descriptor.recordOf?

/-- The record of an identity is that of a declared stream of the identity. -/
theorem exists_ofDecl_of_record? {descriptor : Descriptor} {id : String} {record : StreamRecord}
    (h : descriptor.record? id = some record) :
    ∃ declaration ∈ descriptor.declarations, declaration.2.id = id ∧
      ∃ system band, record = .ofDecl declaration.2 system band := by
  obtain ⟨declaration, hfirst, hrecord⟩ := Option.bind_eq_some_iff.mp h
  obtain ⟨system, -, hclocked⟩ := Option.bind_eq_some_iff.mp hrecord
  obtain ⟨band, -, hmade⟩ := Option.map_eq_some_iff.mp hclocked
  have hid : declaration.2.id = id := by simpa using List.find?_some hfirst
  exact ⟨declaration, List.mem_of_find?_eq_some hfirst, hid, system, band, hmade.symm⟩

end Descriptor

/-- A plan has the system that clocks its lane. -/
theorem LanePlan.BuiltFrom.clock_eq {descriptor : Descriptor} {lane : LaneDecl} {plan : LanePlan}
    (h : plan.BuiltFrom descriptor lane) : descriptor.clock? lane = some plan.system := by
  obtain ⟨name, hname, hsystem⟩ := h.system
  rw [Descriptor.clock?, hname, Option.bind_some, hsystem]

/-- Every declaration that is the first one of its identity gives a record, which is the first one
of the identity among some records; other identities have no record there. -/
def FirstRecords {δ : Type} (identity : δ → String) (made : δ → Option StreamRecord)
    (declared : List δ) (records : List StreamRecord) : Prop :=
  ∀ id, (declared.find? (identity · == id)).map made = (records.find? (·.id == id)).map some

namespace FirstRecords

variable {δ : Type} {identity : δ → String} {made : δ → Option StreamRecord}
  {declared others : List δ} {records further : List StreamRecord}

/-- No declaration gives no record. -/
theorem nil : FirstRecords identity made [] [] := fun _ => rfl

/-- Declarations behind others give records behind theirs. -/
theorem append (h : FirstRecords identity made declared records)
    (hothers : FirstRecords identity made others further) :
    FirstRecords identity made (declared ++ others) (records ++ further) := by
  intro id
  rw [List.find?_append, List.find?_append, Option.map_or, Option.map_or, h id, hothers id]

/-- Declarations piece by piece give records piece by piece. -/
theorem flatMap {α β : Type} {related : α → β → Prop} {left : List α} {right : List β}
    {pieces : α → List δ} {made? : β → List StreamRecord} (h : List.Forall₂ related left right)
    (hpieces : ∀ {one two}, related one two →
      FirstRecords identity made (pieces one) (made? two)) :
    FirstRecords identity made (left.flatMap pieces) (right.flatMap made?) := by
  induction h with
  | nil => exact nil
  | cons hrelated _ ih =>
    rw [List.flatMap_cons, List.flatMap_cons]
    exact (hpieces hrelated).append ih

/-- Declarations may be given with something else. -/
theorem map {ε : Type} (f : δ → ε) {identityThen : ε → String}
    {madeThen : ε → Option StreamRecord} (h : FirstRecords identity made declared records)
    (hidentity : ∀ declaration, identityThen (f declaration) = identity declaration)
    (hmade : ∀ declaration, madeThen (f declaration) = made declaration) :
    FirstRecords identityThen madeThen (declared.map f) records := by
  intro id
  have hsame : ((identityThen · == id) ∘ f) = (identity · == id) := by
    funext declaration
    rw [Function.comp_apply, hidentity]
  rw [List.find?_map, hsame, Option.map_map, ← h id]
  exact congrArg (fun image => Option.map image _) (funext hmade)

end FirstRecords

/-- The records of a chunk plan are those of the first declarations in the chunk. -/
theorem RecordsOf.firstRecords {descriptor : Descriptor} {system : System}
    {declared : List StreamDecl} {records : List StreamRecord}
    (h : RecordsOf descriptor system declared records) :
    FirstRecords (·.id) (descriptor.clockedRecord? system) declared records := by
  intro id
  cases hrecord : records.find? (·.id == id) with
  | none =>
    have hnone : declared.find? (·.id == id) = none := by
      rw [List.find?_eq_none] at hrecord ⊢
      intro stream hstream hid
      have hmem : id ∈ records.map (·.id) :=
        (h.mem_iff id).mpr (List.mem_map.mpr ⟨stream, hstream, beq_iff_eq.mp hid⟩)
      obtain ⟨record, hentered, hsame⟩ := List.mem_map.mp hmem
      exact hrecord record hentered (beq_iff_eq.mpr hsame)
    rw [hnone]
    rfl
  | some record =>
    have hid : record.id = id := by simpa using List.find?_some hrecord
    obtain ⟨stream, band, hfirst, hband, hmade⟩ :=
      h.first record (List.mem_of_find?_eq_some hrecord)
    rw [hid] at hfirst
    rw [hfirst, Option.map_some, Option.map_some, Descriptor.clockedRecord?, hband, hmade]
    rfl

namespace Registry

variable {W S : Type} {kind : SinkKind W S} {registry between later : Registry W S}

/-- Records were entered into a registry, one after the other: a stream keeps its record, and else
has the first of them with its identity. -/
def Enters (registry : Registry W S) (records : List StreamRecord) (later : Registry W S) : Prop :=
  ∀ id, later.records.find? id = (registry.records.find? id).or (records.find? (·.id == id))

/-- Where no record was entered the records are the same. -/
theorem Enters.of_eq (h : later.records = registry.records) : registry.Enters [] later := by
  intro id
  rw [h, List.find?_nil, Option.or_none]

/-- Records are entered after others. -/
theorem Enters.trans {records further : List StreamRecord} (h : registry.Enters records between)
    (hnext : between.Enters further later) : registry.Enters (records ++ further) later := by
  intro id
  rw [hnext id, h id, List.find?_append, Option.or_assoc]

/-- A record is entered if its stream has none. -/
theorem enters_recordOrInsert (registry : Registry W S) (record : StreamRecord) :
    registry.Enters [record] (registry.recordOrInsert record).2 := by
  intro id
  unfold recordOrInsert
  cases hfound : registry.records.find? record.id with
  | some entered =>
    dsimp only
    by_cases hid : record.id = id
    · rw [← hid, hfound, Option.some_or]
    · rw [List.find?_cons_of_neg (by simpa using hid), List.find?_nil, Option.or_none]
  | none =>
    dsimp only
    by_cases hid : record.id = id
    · rw [← hid, hfound, Catalog.find?_insert_self, List.find?_cons_of_pos (by simp),
        Option.none_or]
    · rw [Catalog.find?_insert_of_ne _ (Ne.symm hid), List.find?_cons_of_neg (by simpa using hid),
        List.find?_nil, Option.or_none]

/-- Giving out a sink leaves the records. -/
theorem records_sink (kind : SinkKind W S) (registry : Registry W S) (stream : String) :
    (registry.sink kind stream).2.records = registry.records := by
  unfold sink
  split
  · rfl
  · split <;> rfl

end Registry

section Attach

variable {W S : Type} {kind : SinkKind W S} {registry later : Registry W S}

/-- Binding streams enters their records. -/
theorem ChunkRunner.enters_bindStreams {records : List StreamRecord} {bindings : List Binding}
    (h : bindStreams kind records registry = (.ok bindings, later)) :
    registry.Enters records later := by
  induction records generalizing registry bindings with
  | nil =>
    cases h
    exact .of_eq rfl
  | cons record records ih =>
    have hrecord := registry.enters_recordOrInsert record
    have hkept := Registry.records_sink kind (registry.recordOrInsert record).2
      (registry.recordOrInsert record).1.id
    unfold bindStreams at h
    dsimp only at h
    split at h
    · cases h
    rename_i number between hsink
    split at h
    · cases h
    rename_i rest final hrest
    cases h
    rw [hsink] at hkept
    exact (hrecord.trans (.of_eq hkept)).trans (ih hrest)

/-- Attaching a chunk enters the records of its plan. -/
theorem ChunkRunner.enters_attach {plan : ChunkPlan} {runner : ChunkRunner}
    (h : attach kind plan registry = (.ok runner, later)) :
    registry.Enters plan.streams later := by
  unfold attach at h
  split at h
  · cases h
  rename_i bindings final hbind
  cases h
  exact enters_bindStreams hbind

/-- Attaching chunks enters the records of their plans. -/
theorem BlockRunner.enters_attachChunks {plans : List ChunkPlan} {runners : List ChunkRunner}
    (h : attachChunks kind plans registry = (.ok runners, later)) :
    registry.Enters (plans.flatMap (·.streams)) later := by
  induction plans generalizing registry runners with
  | nil =>
    cases h
    exact .of_eq rfl
  | cons plan plans ih =>
    obtain ⟨runner, between, rest, hfirst, hrest, -⟩ := attachChunks_cons h
    rw [List.flatMap_cons]
    exact (ChunkRunner.enters_attach hfirst).trans (ih hrest)

/-- Attaching a block enters the records of its plan. -/
theorem BlockRunner.enters_attach {plan : BlockPlan} {runner : BlockRunner}
    (h : attach kind plan registry = (.ok runner, later)) :
    registry.Enters (plan.chunks.flatMap (·.streams)) later := by
  unfold attach at h
  split at h
  · cases h
  rename_i chunks final hchunks
  cases h
  exact enters_attachChunks hchunks

/-- Attaching blocks enters the records of their plans. -/
theorem Lane.enters_attachBlocks {plans : List BlockPlan} {runners : List BlockRunner}
    (h : attachBlocks kind plans registry = (.ok runners, later)) :
    registry.Enters (plans.flatMap fun plan => plan.chunks.flatMap (·.streams)) later := by
  induction plans generalizing registry runners with
  | nil =>
    cases h
    exact .of_eq rfl
  | cons plan plans ih =>
    obtain ⟨runner, between, rest, hfirst, hrest, -⟩ := attachBlocks_cons h
    rw [List.flatMap_cons]
    exact (BlockRunner.enters_attach hfirst).trans (ih hrest)

/-- Starting a lane enters the records of its plan. -/
theorem Lane.enters_start {plan : LanePlan} {source : ByteSource} {lane : Lane}
    (h : start kind plan source registry = (.ok lane, later)) :
    registry.Enters (plan.blocks.flatMap fun block => block.chunks.flatMap (·.streams)) later := by
  have hfetch := (Process.run_canReturn kind (source.fetchSkip plan.file.offset) registry).2
  unfold start at h
  dsimp only at h
  split at h
  · cases h
  split at h
  · cases h
  rename_i blocks final hblocks
  cases h
  exact (Registry.Enters.of_eq hfetch.records).trans (enters_attachBlocks hblocks)

namespace Converter

variable {opener : Opener} {descriptor : Descriptor} {directory : Path}

/-- The records of a lane's plan are those of the first declarations in the lane. -/
theorem firstRecords_of_build {decl : LaneDecl} {plan : LanePlan}
    (h : LanePlan.build descriptor decl = .ok plan) :
    FirstRecords (·.2.id) descriptor.recordOf?
      (decl.streamDecls.map fun stream => (decl, stream))
      (plan.blocks.flatMap fun block => block.chunks.flatMap (·.streams)) := by
  have hbuilt := LanePlan.builtFrom_of_build h
  have hstreams : FirstRecords (·.id) (descriptor.clockedRecord? plan.system) decl.streamDecls
      (plan.blocks.flatMap fun block => block.chunks.flatMap (·.streams)) := by
    refine .flatMap hbuilt.blocks fun hblock => ?_
    refine .flatMap (BlockPlan.forall₂_of_build hblock) fun hchunk => ?_
    obtain ⟨layouts, hlayouts⟩ := ChunkPlan.build_ok hchunk
    exact hlayouts.records.firstRecords
  refine hstreams.map (fun stream => (decl, stream)) (fun _ => rfl) fun stream => ?_
  rw [Descriptor.recordOf?, hbuilt.clock_eq, Option.bind_some]

/-- Starting lanes enters the records of the first declarations in them. -/
theorem enters_startLanes {decls : List LaneDecl} {lanes : List Lane}
    (h : startLanes kind opener descriptor directory decls registry = (.ok lanes, later)) :
    ∃ records, registry.Enters records later ∧
      FirstRecords (·.2.id) descriptor.recordOf?
        (decls.flatMap fun lane => lane.streamDecls.map fun stream => (lane, stream)) records := by
  induction decls generalizing registry lanes with
  | nil =>
    cases h
    exact ⟨[], .of_eq rfl, .nil⟩
  | cons decl decls ih =>
    obtain ⟨lane, between, rest, hlane, hlanes, -⟩ := startLanes_cons h
    obtain ⟨records, hrecords, hfirst⟩ := ih hlanes
    unfold startLane at hlane
    split at hlane
    · cases hlane
    rename_i plan hplan
    dsimp only at hlane
    split at hlane
    · cases hlane
    rename_i source hsource
    refine ⟨_, (Lane.enters_start hlane).trans hrecords, ?_⟩
    rw [List.flatMap_cons]
    exact (firstRecords_of_build hplan).append hfirst

/-- The record of a stream after a descriptor was opened, if there were no records before, is that
of the first declaration of its identity. -/
theorem record?_of_openDescriptor {converter : Converter W S}
    (hrecords : converter.registry.records = {})
    (hok : (converter.openDescriptor descriptor directory).1 = .ok ()) {id : String}
    {record : StreamRecord}
    (hfound : (converter.openDescriptor descriptor directory).2.registry.records.find? id =
      some record) :
    descriptor.record? id = some record := by
  obtain ⟨-, lanes, opened, hstart, hopened⟩ := exists_startLanes hok
  obtain ⟨records, henters, hfirst⟩ := enters_startLanes hstart
  have hnone : converter.registry.records.find? id = none := by
    rw [hrecords]
    rfl
  rw [hopened, henters id, hnone, Option.none_or] at hfound
  have hmade := hfirst id
  rw [hfound, Option.map_some, Option.map_eq_some_iff] at hmade
  obtain ⟨declaration, hdeclaration, hrecord⟩ := hmade
  have hsame : descriptor.declarations.find? (·.2.id == id) = some declaration := hdeclaration
  rw [Descriptor.record?, hsame, Option.bind_some, hrecord]

end Converter

end Attach

end SampleDemux
