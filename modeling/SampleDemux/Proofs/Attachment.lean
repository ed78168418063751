import SampleDemux.Command.Listing
import SampleDemux.Proofs.CatalogOrder
import SampleDemux.Proofs.LifeCycle
import SampleDemux.Proofs.Sequences
import SampleDemux.Proofs.StreamRecords

/-!
# Attaching plans, record by record

What attaching a plan does to a registry depends on the records of the plan alone, taken block by
block and chunk by chunk: each is entered and its sink asked for, up to the first sink that cannot
be made. Where blocks and chunks begin makes no difference. If all sinks can be made, the records of
the registry are afterwards those that a listing of the same plans shows.
-/

namespace SampleDemux

/-- The records of a lane plan, block by block and chunk by chunk. -/
def LanePlan.records (plan : LanePlan) : List StreamRecord :=
  plan.blocks.flatMap fun block => block.chunks.flatMap (·.streams)

variable {W S : Type}

/-- A computation over a registry of which the result is not kept. -/
def forget {α : Type} (computed : Except ConvertError α × Registry W S) :
    Except ConvertError Unit × Registry W S :=
  (computed.1.map fun _ => (), computed.2)

/-- Goes on over the registry of a computation that did not fail. -/
def andThen (computed : Except ConvertError Unit × Registry W S)
    (next : Registry W S → Except ConvertError Unit × Registry W S) :
    Except ConvertError Unit × Registry W S :=
  match computed.1 with
  | .error error => (.error error, computed.2)
  | .ok () => next computed.2

/-- Enters records and asks for their sinks, up to the first that cannot be made. -/
def bindAll (kind : SinkKind W S) :
    List StreamRecord → Registry W S → Except ConvertError Unit × Registry W S
  | [], registry => (.ok (), registry)
  | record :: rest, registry =>
    andThen (forget ((registry.recordOrInsert record).2.sink kind
      (registry.recordOrInsert record).1.id)) (bindAll kind rest)

section Flat

variable (kind : SinkKind W S)

/-- Going on twice is going on with both. -/
theorem andThen_assoc (computed : Except ConvertError Unit × Registry W S)
    (next last : Registry W S → Except ConvertError Unit × Registry W S) :
    andThen (andThen computed next) last = andThen computed fun registry =>
      andThen (next registry) last := by
  rcases computed with ⟨outcome, registry⟩
  cases outcome <;> rfl

/-- Records are bound behind others. -/
theorem bindAll_append (first second : List StreamRecord) (registry : Registry W S) :
    bindAll kind (first ++ second) registry =
      andThen (bindAll kind first registry) (bindAll kind second) := by
  induction first generalizing registry with
  | nil => rfl
  | cons record first ih =>
    rw [List.cons_append, bindAll, bindAll, andThen_assoc]
    exact congrArg _ (funext ih)

/-- Binding streams binds their records. -/
theorem forget_bindStreams (records : List StreamRecord) (registry : Registry W S) :
    forget (ChunkRunner.bindStreams kind records registry) = bindAll kind records registry := by
  induction records generalizing registry with
  | nil => rfl
  | cons record records ih =>
    unfold ChunkRunner.bindStreams bindAll
    dsimp only
    split
    · rename_i hsink
      rw [hsink]
      rfl
    · rename_i between hsink
      rw [hsink]
      refine Eq.trans ?_ (ih between)
      split
      · rename_i hrest
        rw [hrest]
      · rename_i hrest
        rw [hrest]
        rfl

/-- Attaching a chunk binds the records of its plan. -/
theorem forget_attachChunk (plan : ChunkPlan) (registry : Registry W S) :
    forget (ChunkRunner.attach kind plan registry) = bindAll kind plan.streams registry := by
  rw [← forget_bindStreams]
  unfold ChunkRunner.attach
  split <;> rename_i hbind <;> rw [hbind] <;> rfl

/-- Attaching chunks binds the records of their plans. -/
theorem forget_attachChunks (plans : List ChunkPlan) (registry : Registry W S) :
    forget (BlockRunner.attachChunks kind plans registry) =
      bindAll kind (plans.flatMap (·.streams)) registry := by
  induction plans generalizing registry with
  | nil => rfl
  | cons plan plans ih =>
    rw [List.flatMap_cons, bindAll_append, ← forget_attachChunk]
    unfold BlockRunner.attachChunks
    split
    · rename_i hchunk
      rw [hchunk]
      rfl
    · rename_i between hchunk
      rw [hchunk]
      refine Eq.trans ?_ (ih between)
      split
      · rename_i hrest
        rw [hrest]
      · rename_i hrest
        rw [hrest]
        rfl

/-- Attaching a block binds the records of its chunks. -/
theorem forget_attachBlock (plan : BlockPlan) (registry : Registry W S) :
    forget (BlockRunner.attach kind plan registry) =
      bindAll kind (plan.chunks.flatMap (·.streams)) registry := by
  rw [← forget_attachChunks]
  unfold BlockRunner.attach
  split <;> rename_i hchunks <;> rw [hchunks] <;> rfl

/-- Attaching blocks binds the records of their plans. -/
theorem forget_attachBlocks (plans : List BlockPlan) (registry : Registry W S) :
    forget (Lane.attachBlocks kind plans registry) =
      bindAll kind (plans.flatMap fun plan => plan.chunks.flatMap (·.streams)) registry := by
  induction plans generalizing registry with
  | nil => rfl
  | cons plan plans ih =>
    rw [List.flatMap_cons, bindAll_append, ← forget_attachBlock]
    unfold Lane.attachBlocks
    split
    · rename_i hblock
      rw [hblock]
      rfl
    · rename_i between hblock
      rw [hblock]
      refine Eq.trans ?_ (ih between)
      split
      · rename_i hrest
        rw [hrest]
      · rename_i hrest
        rw [hrest]
        rfl

variable {kind}

/-- A computation that comes to a result comes to one also when it is not kept. -/
theorem forget_of_ok {α : Type} {computed : Except ConvertError α × Registry W S} {result : α}
    {later : Registry W S} (h : computed = (.ok result, later)) :
    forget computed = (.ok (), later) := by
  rw [h]
  rfl

/-- A computation of which a result is forgotten has one. -/
theorem exists_of_forget {α : Type} {computed : Except ConvertError α × Registry W S}
    {later : Registry W S} (h : forget computed = (.ok (), later)) :
    ∃ result, computed = (.ok result, later) := by
  rcases computed with ⟨error | result, behind⟩
  · cases h
  · cases h
    exact ⟨result, rfl⟩

/-- A computation that fails when its result is forgotten fails. -/
theorem error_of_forget {α : Type} {computed : Except ConvertError α × Registry W S}
    {error : ConvertError} (h : (forget computed).1 = .error error) :
    ∃ later, computed = (.error error, later) := by
  rcases computed with ⟨found | result, behind⟩
  · cases h
    exact ⟨behind, rfl⟩
  · cases h

/-- The records of a plan are those of the streams that the lane declares. -/
theorem LanePlan.map_id_records {descriptor : Descriptor} {decl : LaneDecl} {plan : LanePlan}
    (h : build descriptor decl = .ok plan) : plan.records.map (·.id) = decl.streamIds := by
  simp only [records, List.map_flatMap]
  refine (flatMap_eq_of_forall₂ (builtFrom_of_build h).blocks fun hblock => ?_).symm
  refine flatMap_eq_of_forall₂ (BlockPlan.forall₂_of_build hblock) fun hchunk => ?_
  obtain ⟨layouts, hbuilt⟩ := ChunkPlan.build_ok hchunk
  exact hbuilt.records.ids.symm

/-- A lane that starts has its records bound, after its source was looked at. -/
theorem Lane.bindAll_of_start {plan : LanePlan} {source : ByteSource} {lane : Lane}
    {registry later : Registry W S} (h : start kind plan source registry = (.ok lane, later)) :
    ∃ between, registry.SameStreams between ∧
      bindAll kind plan.records between = (.ok (), later) := by
  refine ⟨_, (Process.run_canReturn kind (source.fetchSkip plan.file.offset) registry).2, ?_⟩
  unfold start at h
  dsimp only at h
  split at h
  · cases h
  split at h
  · cases h
  rename_i hblocks
  cases h
  rw [LanePlan.records, ← forget_attachBlocks]
  exact forget_of_ok hblocks

/-- A lane that starts has a plan, the records of which are bound. -/
theorem Converter.bindAll_of_startLane {opener : Opener} {descriptor : Descriptor}
    {directory : Path} {decl : LaneDecl} {lane : Lane} {registry later : Registry W S}
    (h : startLane kind opener descriptor directory decl registry = (.ok lane, later)) :
    ∃ plan between, LanePlan.build descriptor decl = .ok plan ∧ registry.SameStreams between ∧
      bindAll kind plan.records between = (.ok (), later) := by
  unfold startLane at h
  split at h
  · cases h
  rename_i plan hplan
  dsimp only at h
  split at h
  · cases h
  obtain ⟨between, hsame, hbound⟩ := Lane.bindAll_of_start h
  exact ⟨plan, between, hplan, hsame, hbound⟩

end Flat

section Records

variable {kind : SinkKind W S} {registry later : Registry W S}

/-- The records of streams after others were offered; those with new identities are taken. -/
def offerAll (catalog : Catalog String StreamRecord) (records : List StreamRecord) :
    Catalog String StreamRecord :=
  records.foldl (fun catalog record => catalog.insertNew record.id record) catalog

/-- Offering records keeps the order. -/
theorem ascending_offerAll {catalog : Catalog String StreamRecord} (h : catalog.Ascending)
    (records : List StreamRecord) : (offerAll catalog records).Ascending := by
  induction records generalizing catalog with
  | nil => exact h
  | cons record records ih => exact ih (h.insertNew record.id record)

/-- A record that is entered if there is none is offered. -/
theorem Registry.records_recordOrInsert (h : registry.records.Ascending) (record : StreamRecord) :
    (registry.recordOrInsert record).2.records = registry.records.insertNew record.id record := by
  unfold recordOrInsert
  cases hfound : registry.records.find? record.id with
  | some entered => exact (h.insertNew_of_some hfound record).symm
  | none => exact (h.insertNew_of_none hfound record).symm

/-- Binding records offers them, one after the other. -/
theorem records_bindAll {records : List StreamRecord} (h : registry.records.Ascending)
    (hok : bindAll kind records registry = (.ok (), later)) :
    later.records = offerAll registry.records records := by
  induction records generalizing registry with
  | nil =>
    cases hok
    rfl
  | cons record records ih =>
    have hentered := Registry.records_recordOrInsert h record
    have hkept := Registry.records_sink kind (registry.recordOrInsert record).2
      (registry.recordOrInsert record).1.id
    rw [bindAll] at hok
    rcases hsink : (registry.recordOrInsert record).2.sink kind
      (registry.recordOrInsert record).1.id with ⟨outcome, between⟩
    rw [hsink] at hok hkept
    cases outcome with
    | error error => cases hok
    | ok number =>
      have hbetween : between.records = registry.records.insertNew record.id record :=
        hkept.trans hentered
      have hnext : bindAll kind records between = (.ok (), later) := hok
      rw [ih (by rw [hbetween]; exact h.insertNew record.id record) hnext, hbetween]
      rfl

namespace Converter

variable {opener : Opener} {descriptor : Descriptor} {directory : Path}

/-- Lanes that were started have plans, the records of which were offered, lane by lane. -/
theorem records_startLanes {decls : List LaneDecl} {lanes : List Lane}
    (h : registry.records.Ascending)
    (hok : startLanes kind opener descriptor directory decls registry = (.ok lanes, later)) :
    ∃ plans, List.Forall₂ (fun decl plan => LanePlan.build descriptor decl = .ok plan) decls plans ∧
      later.records = offerAll registry.records (plans.flatMap (·.records)) := by
  induction decls generalizing registry lanes with
  | nil =>
    cases hok
    exact ⟨[], .nil, rfl⟩
  | cons decl decls ih =>
    obtain ⟨lane, between, rest, hlane, hlanes, -⟩ := startLanes_cons hok
    obtain ⟨plan, before, hplan, hsame, hbound⟩ := bindAll_of_startLane hlane
    have hbefore : before.records = registry.records := hsame.records
    have hbetween := records_bindAll (by rw [hbefore]; exact h) hbound
    rw [hbefore] at hbetween
    obtain ⟨plans, hplans, hlater⟩ := ih (by rw [hbetween]; exact ascending_offerAll h _) hlanes
    refine ⟨plan :: plans, .cons hplan hplans, ?_⟩
    rw [hlater, hbetween, List.flatMap_cons]
    exact (List.foldl_append ..).symm

/-- After opening where no record was entered, every declared stream has a record, and a look-up
finds the record of the first declaration. -/
theorem find?_records_of_openDescriptor {converter : Converter W S}
    (hrecords : converter.registry.records = {})
    (hok : (converter.openDescriptor descriptor directory).1 = .ok ()) (id : String) :
    (converter.openDescriptor descriptor directory).2.registry.records.find? id =
        descriptor.record? id ∧
      ∀ declaration ∈ descriptor.declarations, declaration.2.id = id →
        ∃ record, descriptor.record? id = some record := by
  obtain ⟨-, lanes, opened, hstart, hopened⟩ := exists_startLanes hok
  obtain ⟨records, henters, hfirst⟩ := enters_startLanes hstart
  have hfound : opened.records.find? id = records.find? (·.id == id) := by
    rw [henters id, hrecords]
    exact Option.none_or
  have hdeclared : (descriptor.declarations.find? (·.2.id == id)).map descriptor.recordOf? =
      (records.find? (·.id == id)).map some := hfirst id
  rw [hopened, hfound, Descriptor.record?]
  cases hdeclaration : descriptor.declarations.find? (·.2.id == id) with
  | none =>
    rw [hdeclaration] at hdeclared
    refine ⟨Option.map_eq_none_iff.mp hdeclared.symm, fun declaration hmem hid => ?_⟩
    have hother := List.find?_eq_none.mp hdeclaration declaration hmem
    exact absurd (beq_iff_eq.mpr hid) hother
  | some declaration =>
    rw [hdeclaration, Option.map_some] at hdeclared
    obtain ⟨record, hrecord, hmade⟩ := Option.map_eq_some_iff.mp hdeclared.symm
    rw [hrecord, Option.bind_some, ← hmade]
    exact ⟨rfl, fun _ _ _ => ⟨record, rfl⟩⟩

end Converter

end Records

namespace Listing

variable {descriptor : Descriptor}

/-- Plans that can be made one by one can be listed. -/
theorem plans_of_forall₂ {plans : List LanePlan}
    (h : List.Forall₂ (fun decl plan => LanePlan.build descriptor decl = .ok plan)
      descriptor.lanes plans) : Listing.plans descriptor = .ok plans := by
  refine mapM_eq_ok_of_forall₂ (h.imp fun decl plan hplan => ?_)
  rw [hplan]

/-- **A listing shows the streams that a conversion has.** If a descriptor can be opened where no
record is entered, its lanes can be listed, and the streams of the listing are the records that
opening entered: the same identities in the same order, each with the same record. -/
theorem shows_registered_streams {converter : Converter W S}
    (hrecords : converter.registry.records = {}) (descriptor : Descriptor) (directory : Path)
    (hok : (converter.openDescriptor descriptor directory).1 = .ok ()) :
    ∃ plans, Listing.plans descriptor = .ok plans ∧
      streams plans = (converter.openDescriptor descriptor directory).2.registry.records ∧
      (streams plans).values =
        (converter.openDescriptor descriptor directory).2.registry.recordList ∧
      (streams plans).keys.Pairwise (· < ·) ∧
      ∀ id, (streams plans).find? id = descriptor.record? id := by
  obtain ⟨-, lanes, opened, hstart, hopened⟩ := Converter.exists_startLanes hok
  have hascending : converter.registry.records.Ascending := by
    rw [hrecords]
    exact Catalog.ascending_empty
  obtain ⟨plans, hplans, hlater⟩ := Converter.records_startLanes hascending hstart
  have hsame : streams plans =
      (converter.openDescriptor descriptor directory).2.registry.records := by
    rw [hopened, hlater, hrecords]
    rfl
  refine ⟨plans, plans_of_forall₂ hplans, hsame, congrArg Catalog.values hsame,
    (ascending_offerAll Catalog.ascending_empty _).keys, fun id => ?_⟩
  rw [hsame]
  exact (Converter.find?_records_of_openDescriptor hrecords hok id).1

/-- A lane of one chunk that declares a stream `B` and behind it twice a stream `A`, in two
encodings. -/
def repeatedLane (lane : String) (first second : IntegerCode) : LaneDecl where
  id := lane
  systems := ["S"]
  blocks := [{
    chunks := [{
      countWords := 3
      lumps := [{ streams := [
        { id := "B", bands := ["L"] },
        { id := "A", encoding := .integer first false, bands := ["L"] },
        { id := "A", encoding := .integer second false, bands := ["L"] }] }] }] }]

/-- Two such lanes, the second of which has the encodings the other way round. -/
def repeatedRecording : Descriptor :=
  { pairRecording with
    lanes := [repeatedLane "P" .offsetBinary .offsetGray,
      repeatedLane "Q" .offsetGray .offsetBinary] }

/-- The recording declares one of its streams four times; the listing and the converter have it
once, as it is declared first. -/
theorem shows_registered_streams_of_repeatedRecording :
    ∃ plans, Listing.plans repeatedRecording = .ok plans ∧
      (streams plans).values.map (fun record => (record.id, record.encoding)) =
        [("A", .integer .offsetBinary false), ("B", .integer .twosComplement false)] ∧
      (streams plans).values =
        ((Converter.new MemorySink.kind () (pairFiles [] (some []))).openDescriptor
          repeatedRecording ⟨""⟩).2.registry.recordList := by
  have hok : ((Converter.new MemorySink.kind () (pairFiles [] (some []))).openDescriptor
      repeatedRecording ⟨""⟩).1 = .ok () := by
    with_unfolding_all rfl
  have hrecords : ((Converter.new MemorySink.kind () (pairFiles [] (some []))).openDescriptor
      repeatedRecording ⟨""⟩).2.registry.recordList.map
        (fun record => (record.id, record.encoding)) =
        [("A", .integer .offsetBinary false), ("B", .integer .twosComplement false)] := by
    decide +kernel
  obtain ⟨plans, hplans, -, hvalues, -⟩ := shows_registered_streams rfl repeatedRecording ⟨""⟩ hok
  exact ⟨plans, hplans, hvalues ▸ hrecords, hvalues⟩

end Listing

end SampleDemux
