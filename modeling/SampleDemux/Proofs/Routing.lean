import SampleDemux.Proofs.LifeCycle
import SampleDemux.Proofs.Reading
import SampleDemux.Proofs.StreamRecords

/-!
# Every sample comes to the sink of its own stream

The sink of a stream is given samples of declarations of that stream and no others, each decoded
from its own bits as its own declaration says, and with every sample the record of the first
declaration of the stream. The way goes from the bits to a unit of a chunk plan, from there by the
stream's place in the plan to the sink that was made for the identity, through a registry that all
lanes share.
-/

namespace SampleDemux

namespace SampleFormat

/-- A sample of a format has as many components as the format. -/
theorem isComplex_of_sampleByName {format : SampleFormat} {values : List Float} {sample : Sample}
    (hvalues : values.length = format.components) (h : format.sampleByName values = some sample) :
    sample.isComplex = format.isComplex := by
  cases format with
  | real negated =>
    obtain ⟨value, rfl⟩ := List.length_eq_one_iff.mp hvalues
    simp only [sampleByName, namedValue, namedComponents_real] at h
    cases h
    rfl
  | complex quadratureFirst negatedI negatedQ =>
    obtain ⟨first, second, rfl⟩ := List.length_eq_two.mp hvalues
    simp only [sampleByName, namedValue, namedComponents_complex] at h
    cases quadratureFirst <;> cases h <;> rfl

end SampleFormat

section Declared

/-- The sample that a declared stream gives to raw components, by its own format, encoding and
quantization. -/
def StreamDecl.sampleOf (stream : StreamDecl) (raw : ℕ → ℕ) : Option Sample :=
  stream.format.sampleByName
    ((List.range stream.format.components).map fun component =>
      stream.encoding.value stream.quantization (raw component))

/-- A sample of a declared stream is complex if and only if the declared format is. -/
theorem StreamDecl.isComplex_of_sampleOf {stream : StreamDecl} {raw : ℕ → ℕ} {sample : Sample}
    (h : stream.sampleOf raw = some sample) : sample.isComplex = stream.format.isComplex :=
  SampleFormat.isComplex_of_sampleByName (by rw [List.length_map, List.length_range]) h

/-- A sample of a declared stream begins at a bit of a declared chunk, in one of the repetitions of
the stream's lump. -/
def ChunkDecl.HoldsSample (chunk : ChunkDecl) (stream : StreamDecl) (start : ℕ) : Prop :=
  ∃ lump ∈ chunk.lumps, ∃ r < lump.repetitions chunk.capacity, ∃ place : ℕ,
    lump.streams[place]? = some stream ∧ ∃ k < stream.rateFactor,
      start = chunk.headBits + r * lump.bits + lump.streamOffset place + stream.leadingBits +
        k * stream.sampleBits

/-- Unused bits at a place hold no sample. -/
theorem shape_of_mem_placedGap {start bits : ℕ} {unit : PlacedUnit}
    (h : unit ∈ placedGap start bits) : unit.shape = .unused := by
  unfold placedGap at h
  split at h
  · cases h
  · rw [List.mem_singleton.mp h]

/-- A declared unit that is used is a sample of a declared stream. -/
theorem ChunkDecl.exists_sample_of_mem_placed {chunk : ChunkDecl} {unit : PlacedUnit}
    (h : unit ∈ chunk.placed) (hused : unit.shape ≠ .unused) :
    ∃ stream, chunk.HoldsSample stream unit.start ∧ unit.shape = stream.shape := by
  obtain hfront | hback := List.mem_append.mp h
  · obtain hgap | hlumps := List.mem_append.mp hfront
    · exact absurd (shape_of_mem_placedGap hgap) hused
    · obtain ⟨lump, hlump, hunit⟩ := List.mem_flatMap.mp hlumps
      obtain ⟨r, hr, hunit⟩ := List.mem_flatMap.mp hunit
      obtain ⟨units, hunits, hunit⟩ := List.mem_flatten.mp hunit
      obtain ⟨place, hplace, rfl⟩ := List.mem_mapIdx.mp hunits
      have hstream := List.getElem?_eq_getElem hplace
      obtain hfront | hback := List.mem_append.mp hunit
      · obtain hgap | hsamples := List.mem_append.mp hfront
        · exact absurd (shape_of_mem_placedGap hgap) hused
        · obtain ⟨k, hk, rfl⟩ := List.mem_map.mp hsamples
          exact ⟨lump.streams[place], ⟨lump, hlump, r, List.mem_range.mp hr, place, hstream, k,
            List.mem_range.mp hk, rfl⟩, rfl⟩
      · exact absurd (shape_of_mem_placedGap hback) hused
  · exact absurd (shape_of_mem_placedGap hback) hused

/-- What the bytes of a built chunk emit for a stream is a sample of a declaration of the stream. -/
theorem ChunkPlan.exists_sample_of_mem_emissions {descriptor : Descriptor} {system : System}
    {chunk : ChunkDecl} {plan : ChunkPlan} (h : build descriptor system chunk = .ok plan)
    {data : List UInt8} {emission : Emission} (hemission : emission ∈ plan.emissions data) :
    ∃ stream start, chunk.HoldsSample stream start ∧ stream.id = emission.stream ∧
      stream.sampleOf (plan.rawComponent (plan.number data) start stream.quantization) =
        some emission.sample := by
  obtain ⟨layouts, hbuilt⟩ := build_ok h
  obtain ⟨index, -, hemits⟩ := List.mem_filterMap.mp hemission
  unfold emissionAt at hemits
  split at hemits
  · rename_i bits place decoder order hunit
    split at hemits
    · rename_i record sample hrecord hsample
      cases hemits
      have hheld : PlanUnit.shape plan.streams ⟨bits, .sample place decoder order⟩ =
          .sample (some record.id) decoder.format decoder.encoding decoder.quantization := by
        simp only [PlanUnit.shape, hrecord, Option.map_some]
      have hplaced : plan.placed[index]? = some ⟨plan.startOf index, bits,
          .sample (some record.id) decoder.format decoder.encoding decoder.quantization⟩ := by
        rw [placed, getElem?_placeFrom, hunit, Option.map_some, Nat.zero_add, hheld]
        rfl
      have hmem := List.mem_of_getElem? hplaced
      rw [hbuilt.placed_eq] at hmem
      obtain ⟨stream, hholds, hshape⟩ := ChunkDecl.exists_sample_of_mem_placed hmem
        UnitShape.noConfusion
      obtain ⟨hid, hformat, hencoding, hquantization⟩ := UnitShape.sample.inj hshape
      refine ⟨stream, _, hholds, (Option.some_inj.mp hid).symm, ?_⟩
      rw [StreamDecl.sampleOf, ← hformat, ← hencoding, ← hquantization]
      exact hsample
    · cases hemits
  · cases hemits

/-- A declared stream that has a sample in a declared lane is one of the lane's. -/
theorem LaneDecl.mem_streamDecls {lane : LaneDecl} {block : BlockDecl}
    (hblock : block ∈ lane.blocks)
    {chunk : ChunkDecl} (hchunk : chunk ∈ block.chunks) {stream : StreamDecl} {start : ℕ}
    (h : chunk.HoldsSample stream start) : stream ∈ lane.streamDecls := by
  obtain ⟨lump, hlump, _, _, _, hstream, -⟩ := h
  have hmem := List.mem_of_getElem? hstream
  exact List.mem_flatMap.mpr ⟨block, hblock, List.mem_flatMap.mpr ⟨chunk, hchunk,
    List.mem_flatMap.mpr ⟨lump, hlump, hmem⟩⟩⟩

/-- A sample is decoded from the bits of one of the samples that a declared lane has of a declared
stream, as the stream's declaration says; the bits are those of a full read of a chunk of the lane,
made of a source as reading leaves it. -/
def LaneDecl.Decodes (descriptor : Descriptor) (lane : LaneDecl) (source : ByteSource)
    (stream : StreamDecl) (sample : Sample) : Prop :=
  ∃ block ∈ lane.blocks, ∃ chunk ∈ block.chunks, ∃ system plan later start,
    descriptor.clock? lane = some system ∧
    ChunkPlan.build descriptor system chunk = .ok plan ∧
    chunk.HoldsSample stream start ∧
    source.Leads later ∧ (later.read plan.sizeBytes).outcome = .ok .full ∧
    stream.sampleOf (plan.rawComponent (plan.number (later.read plan.sizeBytes).data) start
      stream.quantization) = some sample

/-- A declared stream of which a lane decodes a sample is one of the lane's, and the sample has the
components of its format. -/
theorem LaneDecl.Decodes.mem_streamDecls {descriptor : Descriptor} {lane : LaneDecl}
    {source : ByteSource} {stream : StreamDecl} {sample : Sample}
    (h : lane.Decodes descriptor source stream sample) :
    stream ∈ lane.streamDecls ∧ sample.isComplex = stream.format.isComplex := by
  obtain ⟨block, hblock, chunk, hchunk, _, _, _, _, -, -, hholds, -, -, hsample⟩ := h
  exact ⟨LaneDecl.mem_streamDecls hblock hchunk hholds, StreamDecl.isComplex_of_sampleOf hsample⟩

end Declared

section Attached

variable {W S : Type} {registry : Registry W S}

/-- What an attached chunk extracts goes to the sink of the declaration that it is decoded from. -/
theorem ChunkRunner.Attached.routes {descriptor : Descriptor} {system : System} {chunk : ChunkDecl}
    {plan : ChunkPlan} {runner : ChunkRunner} (h : ChunkRunner.Attached registry plan runner)
    (hplan : ChunkPlan.build descriptor system chunk = .ok plan) {source : ByteSource}
    {delivery : Delivery} (hyields : runner.Yields source delivery) :
    ∃ stream later start, chunk.HoldsSample stream start ∧ source.Leads later ∧
      (later.read plan.sizeBytes).outcome = .ok .full ∧
      stream.sampleOf (plan.rawComponent (plan.number (later.read plan.sizeBytes).data) start
        stream.quantization) = some delivery.sample ∧
      registry.sinks.find? stream.id = some delivery.sink ∧
      registry.records.find? stream.id = some delivery.record := by
  have hbuilt : plan.IsBuilt := ⟨descriptor, system, chunk, hplan⟩
  obtain ⟨later, contents, hleads, hfull, hcontents, hdelivery⟩ := hyields
  rw [h.plan_eq] at hfull hcontents
  rw [hbuilt.values_eq (ByteSource.read_of_ok hfull).1] at hcontents
  cases hcontents
  obtain ⟨emission, hemission, haddress⟩ := exists_mem_of_forall₂ (h.addresses hbuilt _) hdelivery
  obtain ⟨stream, start, hholds, hid, hsample⟩ :=
    ChunkPlan.exists_sample_of_mem_emissions hplan hemission
  have hsink := haddress.sink
  have hrecord := haddress.record
  rw [← haddress.sample] at hsample
  rw [← hid] at hsink hrecord
  exact ⟨stream, later, start, hholds, hleads, hfull, hsample, hsink, hrecord⟩

/-- What a lane of a descriptor that was opened extracts goes to the sink of the declaration that it
is decoded from. -/
theorem Lane.OpenedFrom.routes {descriptor : Descriptor} {decl : LaneDecl} {lane : Lane}
    (h : lane.OpenedFrom descriptor registry decl) {delivery : Delivery}
    (hyields : lane.Yields delivery) :
    ∃ stream, decl.Decodes descriptor lane.source stream delivery.sample ∧
      registry.sinks.find? stream.id = some delivery.sink ∧
      registry.records.find? stream.id = some delivery.record := by
  obtain ⟨plan, hplan, hblocks⟩ := h.blocks
  have hbuilt := LanePlan.builtFrom_of_build hplan
  obtain ⟨runner, hrunner, chunkRunner, hchunkRunner, hchunkYields⟩ := hyields
  obtain ⟨blockPlan, hblockPlan, hattached⟩ := exists_mem_of_forall₂ hblocks hrunner
  obtain ⟨chunkPlan, hchunkPlan, hchunkAttached⟩ :=
    exists_mem_of_forall₂ hattached.chunks hchunkRunner
  obtain ⟨block, hblock, hblockBuilt⟩ := exists_mem_of_forall₂ hbuilt.blocks hblockPlan
  obtain ⟨chunk, hchunk, hchunkBuilt⟩ :=
    exists_mem_of_forall₂ (BlockPlan.forall₂_of_build hblockBuilt) hchunkPlan
  obtain ⟨stream, later, start, hholds, hleads, hfull, hsample, hsink, hrecord⟩ :=
    hchunkAttached.routes hchunkBuilt hchunkYields
  exact ⟨stream, ⟨block, hblock, chunk, hchunk, plan.system, chunkPlan, later, start,
    hbuilt.clock_eq, hchunkBuilt, hholds, hleads, hfull, hsample⟩, hsink, hrecord⟩

end Attached

/-- The declarations of an identity agree on the format. -/
def Descriptor.OneFormat (descriptor : Descriptor) (id : String) : Prop :=
  ∀ one ∈ descriptor.declarations, ∀ other ∈ descriptor.declarations,
    one.2.id = id → other.2.id = id → one.2.format = other.2.format

/-- A sample of a stream, with the stream's record: a declared lane decodes it from a source as one
of the lane's declarations of the stream says, and the record is that of the first declaration of
the stream in the descriptor. -/
structure Delivery.BelongsTo (delivery : Delivery) (descriptor : Descriptor) (lane : LaneDecl)
    (source : ByteSource) (id : String) : Prop where
  /-- The sample is decoded from bits that the stream has in the lane. -/
  decoded : ∃ stream, stream.id = id ∧ lane.Decodes descriptor source stream delivery.sample
  /-- The record is made from the first declaration of the stream. -/
  record : descriptor.record? id = some delivery.record
  /-- Where all declarations of the stream agree, the record tells how many components there are. -/
  isComplex : descriptor.OneFormat id → delivery.sample.isComplex = delivery.record.isComplex

/-- A sample that a declared lane decodes belongs to the stream that it is decoded for. -/
theorem LaneDecl.Decodes.belongsTo {descriptor : Descriptor} {lane : LaneDecl}
    {source : ByteSource} {stream : StreamDecl} {delivery : Delivery}
    (h : lane.Decodes descriptor source stream delivery.sample) (hlane : lane ∈ descriptor.lanes)
    (hrecord : descriptor.record? stream.id = some delivery.record) :
    delivery.BelongsTo descriptor lane source stream.id := by
  refine ⟨⟨stream, rfl, h⟩, hrecord, fun hformat => ?_⟩
  obtain ⟨hstream, hsample⟩ := h.mem_streamDecls
  obtain ⟨first, hfirst, hid, system, band, hmade⟩ := Descriptor.exists_ofDecl_of_record? hrecord
  have hdeclared : (lane, stream) ∈ descriptor.declarations :=
    List.mem_flatMap.mpr ⟨lane, hlane, List.mem_map.mpr ⟨stream, hstream, rfl⟩⟩
  have hsame : stream.format = first.2.format := hformat _ hdeclared _ hfirst rfl hid
  rw [hsample, hsame, hmade]
  rfl

namespace Converter

variable {W S : Type} {kind : SinkKind W S} {converter : Converter W S}

/-- The record of a stream of an open converter is that which the descriptor gives to it. -/
theorem Phase.record? {last : Option Descriptor} (h : Phase kind last converter)
    {descriptor : Descriptor} (hlast : last = some descriptor) {id : String}
    {record : StreamRecord} (hfound : converter.registry.records.find? id = some record) :
    descriptor.record? id = some record := by
  cases h with
  | asNew hnew =>
    obtain ⟨-, -, -, -, hrecords⟩ := asNew_iff.mp hnew
    rw [hrecords] at hfound
    cases hfound
  | opened hfresh hopened hok hshape =>
    obtain rfl := Option.some_inj.mp (hopened.symm.trans hlast)
    obtain ⟨-, -, -, -, hrecords⟩ := asNew_iff.mp hfresh
    rw [hshape.registry.records] at hfound
    exact record?_of_openDescriptor hrecords hok hfound

/-- A converter in a phase is consistent. -/
theorem Phase.consistent {last : Option Descriptor} (h : Phase kind last converter) :
    converter.Consistent := by
  cases h with
  | asNew hnew => exact hnew.consistent
  | opened hfresh _ _ hshape =>
    exact hshape.consistent (hfresh.consistent.openDescriptor _ _)

/-- A sample of a lane of an open converter comes to its place: its sink is that of a stream, to
which it belongs. -/
structure Routes (converter : Converter W S) (descriptor : Descriptor) (index : ℕ) (lane : Lane)
    (delivery : Delivery) : Prop where
  /-- The sink is that of a stream. -/
  sink : ∃ id, converter.registry.sinks.find? id = some delivery.sink
  /-- The lane is declared at its place, and its sample belongs to the stream. -/
  belongs : ∀ id, converter.registry.sinks.find? id = some delivery.sink →
    ∃ decl, descriptor.lanes[index]? = some decl ∧
      delivery.BelongsTo descriptor decl lane.source id

/-- What a lane of an open converter extracts comes to its place. -/
theorem Phase.routes {last : Option Descriptor} (h : Phase kind last converter)
    {descriptor : Descriptor} (hlast : last = some descriptor)
    (hlanes : List.Forall₂ (Lane.OpenedFrom descriptor converter.registry) descriptor.lanes
      converter.lanes) {index : ℕ} {lane : Lane} (hlane : converter.lanes[index]? = some lane)
    {delivery : Delivery} (hyields : lane.Yields delivery) :
    converter.Routes descriptor index lane delivery := by
  obtain ⟨decl, hdecl, hopened⟩ := exists_getElem?_of_forall₂ hlanes.flip hlane
  obtain ⟨stream, hdecodes, hsink, hrecord⟩ := Lane.OpenedFrom.routes hopened hyields
  refine ⟨⟨stream.id, hsink⟩, fun id hid => ⟨decl, hdecl, ?_⟩⟩
  obtain rfl := h.consistent.registry.stream_eq hsink hid
  exact hdecodes.belongsTo (List.mem_of_getElem? hdecl) (h.record? hlast hrecord)

end Converter

end SampleDemux
