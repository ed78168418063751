import SampleDemux.Plan.Chunk
import SampleDemux.Proofs.Sequences
import Mathlib.Tactic.Ring

/-!
# What a built chunk plan consists of

Building a plan checks one stream after the other, one lump after the other, and then fills the
chunk. Each step is inverted once: a laid out stream, lump or chunk has the fields of its
declaration, and the list of records holds one record for every declared identity, made from its
first declaration. What follows for the places of the units is left to others.
-/

namespace SampleDemux

/-- Bits of one sample of a declared stream. -/
def StreamDecl.sampleBits (stream : StreamDecl) : ℕ :=
  stream.format.components * stream.quantization

/-- Bits of one repetition of a declared stream that hold no sample. -/
def StreamDecl.unusedBits (stream : StreamDecl) : ℕ :=
  stream.packedBits - stream.rateFactor * stream.sampleBits

/-- Bits of one repetition of a declared lump. -/
def LumpDecl.bits (lump : LumpDecl) : ℕ := (lump.streams.map (·.packedBits)).sum

/-- Unused bits as units: none of them if there are no bits. -/
def PlanUnit.gap (bits : ℕ) : List PlanUnit := if bits = 0 then [] else [.padding bits]

/-- No bits are no unit. -/
@[simp]
theorem PlanUnit.gap_zero : PlanUnit.gap 0 = [] := rfl

/-- Of the bits that no lump fills, those before the lumps. -/
def Padding.leadingBits (padding : Padding) (spare : ℕ) : ℕ :=
  match padding with
  | .head => spare
  | _ => 0

/-- Of the bits that no lump fills, those after the lumps. -/
def Padding.trailingBits (padding : Padding) (spare : ℕ) : ℕ :=
  match padding with
  | .tail => spare
  | _ => 0

/-- The layout of a declared stream whose record is at its place. -/
structure StreamLayout.LaysOut (records : List StreamRecord) (stream : StreamDecl)
    (layout : StreamLayout) : Prop where
  /-- The record at the layout's place is the stream's. -/
  record : (records[layout.stream]?).map (·.id) = some stream.id
  /-- Samples have the declared format. -/
  format : layout.decoder.format = stream.format
  /-- Components have the declared encoding. -/
  encoding : layout.decoder.encoding = stream.encoding
  /-- Components have the declared width. -/
  quantization : layout.decoder.quantization = stream.quantization
  /-- One repetition has the declared number of samples. -/
  rateFactor : layout.rateFactor = stream.rateFactor
  /-- There is a sample. -/
  rateFactor_pos : 0 < stream.rateFactor
  /-- One repetition has the declared number of bits. -/
  packedBits : layout.packedBits = stream.packedBits
  /-- The samples fit. -/
  used_le : stream.rateFactor * stream.sampleBits ≤ stream.packedBits
  /-- All other bits are unused. -/
  paddingBits : layout.paddingBits = stream.unusedBits
  /-- Unused bits have the declared place. -/
  alignment : layout.alignment = stream.alignment
  /-- They have one. -/
  aligned : 0 < stream.unusedBits → stream.alignment ≠ .undefined
  /-- Samples are numbered in the declared direction. -/
  shift : layout.shift = stream.shift

/-- The layout of a declared lump in a chunk of so many bits. -/
structure LumpLayout.LaysOut (capacity : ℕ) (records : List StreamRecord) (lump : LumpDecl)
    (layout : LumpLayout) : Prop where
  /-- Repetitions are numbered in the declared direction. -/
  shift : layout.shift = lump.shift
  /-- There is a stream. -/
  nonempty : lump.streams ≠ []
  /-- Every stream is laid out, in the order of the declarations. -/
  streams : List.Forall₂ (StreamLayout.LaysOut records) lump.streams layout.streams
  /-- There is a bit. -/
  bits_pos : 0 < lump.bits
  /-- The lump is repeated as often as it fits. -/
  repetitions : layout.repetitions = capacity / lump.bits

/-- The records of declared streams: one for each identity, made from its first declaration. -/
structure RecordsOf (descriptor : Descriptor) (system : System) (declared : List StreamDecl)
    (records : List StreamRecord) : Prop where
  /-- Every declared identity has one record, at the place of its first declaration. -/
  ids : records.map (·.id) = (declared.map (·.id)).eraseDups
  /-- A record copies the first declaration of its identity. -/
  first : ∀ record ∈ records, ∃ stream band, declared.find? (·.id == record.id) = some stream ∧
    stream.bands.head?.bind descriptor.band? = some band ∧ record = .ofDecl stream system band

namespace StreamLayout

/-- Further records leave a layout as it is. -/
theorem LaysOut.mono {records further : List StreamRecord} {stream : StreamDecl}
    {layout : StreamLayout} (h : LaysOut records stream layout) (hgrows : records <+: further) :
    LaysOut further stream layout := by
  rcases hgrows with ⟨added, rfl⟩
  have hplace : layout.stream < records.length := by
    by_contra hplace
    have hrecord := h.record
    rw [List.getElem?_eq_none (by omega)] at hrecord
    cases hrecord
  exact { h with record := by rw [List.getElem?_append_left hplace]; exact h.record }

/-- Samples of a layout have the declared width. -/
theorem LaysOut.bitWidth {records : List StreamRecord} {stream : StreamDecl}
    {layout : StreamLayout} (h : LaysOut records stream layout) :
    layout.decoder.bitWidth = stream.sampleBits := by
  rw [Decoder.bitWidth, h.format, h.quantization, StreamDecl.sampleBits]

/-- Laid out streams have the declared numbers of bits. -/
theorem bits_eq_of_laysOut {records : List StreamRecord} {streams : List StreamDecl}
    {layouts : List StreamLayout} (h : List.Forall₂ (LaysOut records) streams layouts) :
    LumpLayout.bits layouts = (streams.map (·.packedBits)).sum := by
  induction h with
  | nil => rfl
  | cons hstream _ ih =>
    simp only [LumpLayout.bits, List.map_cons, List.sum_cons] at ih ⊢
    rw [hstream.packedBits, ih]

end StreamLayout

namespace LumpLayout

/-- Further records leave a layout as it is. -/
theorem LaysOut.mono {capacity : ℕ} {records further : List StreamRecord} {lump : LumpDecl}
    {layout : LumpLayout} (h : LaysOut capacity records lump layout)
    (hgrows : records <+: further) : LaysOut capacity further lump layout :=
  { h with streams := h.streams.imp fun _ _ hstream => hstream.mono hgrows }

/-- One repetition of a layout has the declared number of bits. -/
theorem LaysOut.bits_eq {capacity : ℕ} {records : List StreamRecord} {lump : LumpDecl}
    {layout : LumpLayout} (h : LaysOut capacity records lump layout) :
    bits layout.streams = lump.bits := StreamLayout.bits_eq_of_laysOut h.streams

/-- All repetitions of a layout together. -/
theorem LaysOut.consumed_eq {capacity : ℕ} {records : List StreamRecord} {lump : LumpDecl}
    {layout : LumpLayout} (h : LaysOut capacity records lump layout) :
    layout.consumed = capacity / lump.bits * lump.bits := by
  rw [consumed, h.repetitions, h.bits_eq]

end LumpLayout

namespace RecordsOf

variable {descriptor : Descriptor} {system : System} {declared : List StreamDecl}
  {records : List StreamRecord}

/-- Nothing declared has no record. -/
theorem nil : RecordsOf descriptor system [] [] := ⟨rfl, by simp⟩

/-- A stream has a record if and only if its identity was declared. -/
theorem mem_iff (h : RecordsOf descriptor system declared records) (id : String) :
    id ∈ records.map (·.id) ↔ id ∈ declared.map (·.id) := by rw [h.ids, List.mem_eraseDups]

/-- A further declaration of an identity adds no record. -/
theorem again (h : RecordsOf descriptor system declared records) {stream : StreamDecl}
    (hstream : stream.id ∈ records.map (·.id)) :
    RecordsOf descriptor system (declared ++ [stream]) records where
  ids := by
    have hseen : (declared.map (·.id)).contains stream.id = true :=
      List.contains_iff_mem.mpr ((h.mem_iff _).mp hstream)
    rw [h.ids, List.map_append, List.eraseDups_append, List.map_singleton, List.cons_removeAll,
      hseen]
    simp
  first := by
    intro record hrecord
    rcases h.first record hrecord with ⟨first, band, hfirst, hband, rfl⟩
    exact ⟨first, band, by rw [List.find?_append, hfirst]; rfl, hband, rfl⟩

/-- The first declaration of an identity adds its record. -/
theorem insert (h : RecordsOf descriptor system declared records) {stream : StreamDecl}
    {band : Band} (hstream : stream.id ∉ records.map (·.id))
    (hband : stream.bands.head?.bind descriptor.band? = some band) :
    RecordsOf descriptor system (declared ++ [stream])
      (records ++ [.ofDecl stream system band]) where
  ids := by
    have hnew : (declared.map (·.id)).contains stream.id = false := by
      rw [← Bool.not_eq_true, List.contains_iff_mem, ← h.mem_iff]
      exact hstream
    rw [List.map_append, h.ids, List.map_append, List.eraseDups_append, List.map_singleton,
      List.map_singleton, List.cons_removeAll, hnew]
    simp [List.eraseDups_cons, StreamRecord.ofDecl]
  first := by
    intro record hrecord
    rw [List.mem_append, List.mem_singleton] at hrecord
    rcases hrecord with hrecord | rfl
    · rcases h.first record hrecord with ⟨first, band, hfirst, hband, rfl⟩
      exact ⟨first, band, by rw [List.find?_append, hfirst]; rfl, hband, rfl⟩
    · have hnone : declared.find? (·.id == stream.id) = none := by
        rw [List.find?_eq_none]
        intro other hother hsame
        exact hstream ((h.mem_iff _).mpr (List.mem_map.mpr ⟨other, hother, eq_of_beq hsame⟩))
      exact ⟨stream, band, by simp [List.find?_append, StreamRecord.ofDecl, hnone], hband, rfl⟩

end RecordsOf

namespace ChunkPlan

variable {descriptor : Descriptor} {system : System} {records entered : List StreamRecord}
  {declared : List StreamDecl}

/-- An entered stream has its record at its place, and all earlier records stay. -/
theorem streamIndex_ok {stream : StreamDecl} {index : ℕ}
    (h : streamIndex descriptor system records stream = .ok (index, entered))
    (hrecords : RecordsOf descriptor system declared records) :
    (entered[index]?).map (·.id) = some stream.id ∧ records <+: entered ∧
      RecordsOf descriptor system (declared ++ [stream]) entered := by
  unfold streamIndex at h
  split at h
  case h_1 place hplace =>
    cases h
    rcases List.findIdx?_eq_some_iff_getElem.mp hplace with ⟨hbound, hid, -⟩
    have hmem : stream.id ∈ records.map (·.id) :=
      List.mem_map.mpr ⟨records[index], List.getElem_mem hbound, eq_of_beq hid⟩
    refine ⟨?_, List.prefix_rfl, hrecords.again hmem⟩
    rw [List.getElem?_eq_getElem hbound, Option.map_some, eq_of_beq hid]
  case h_2 hnone =>
    have hnew : stream.id ∉ records.map (·.id) := by
      intro hmem
      rcases List.mem_map.mp hmem with ⟨record, hrecord, hid⟩
      have hother := List.findIdx?_eq_none_iff.mp hnone record hrecord
      simp [hid] at hother
    split at h
    · cases h
    case h_2 bandId bands hbands =>
      split at h
      · cases h
      case h_2 band hband =>
        cases h
        refine ⟨?_, List.prefix_append .., hrecords.insert hnew (by rw [hbands]; exact hband)⟩
        rw [List.getElem?_concat_length]
        rfl

/-- A decoder is one of the declared fields. -/
theorem ofWidth?_eq_some {format : SampleFormat} {encoding : Encoding} {quantization : ℕ}
    {decoder : Decoder} (h : Decoder.ofWidth? format encoding quantization = some decoder) :
    ∃ supported, decoder = ⟨format, encoding, quantization, supported⟩ := by
  unfold Decoder.ofWidth? at h
  split at h
  · cases h
    exact ⟨_, rfl⟩
  · cases h

/-- A laid out stream has the fields of its declaration. -/
theorem layoutStream_ok {stream : StreamDecl} {layout : StreamLayout}
    (h : layoutStream descriptor system records stream = .ok (layout, entered))
    (hrecords : RecordsOf descriptor system declared records) :
    StreamLayout.LaysOut entered stream layout ∧ records <+: entered ∧
      RecordsOf descriptor system (declared ++ [stream]) entered := by
  unfold layoutStream at h
  split at h
  · cases h
  rename_i hrate
  split at h
  · cases h
  rename_i decoder hdecoder
  rcases ofWidth?_eq_some hdecoder with ⟨hsupported, rfl⟩
  dsimp only at h
  split at h
  · cases h
  rename_i hused
  split at h
  · cases h
  rename_i haligned
  split at h
  · cases h
  rename_i index further hindex
  cases h
  rcases streamIndex_ok hindex hrecords with ⟨hplace, hgrows, hentered⟩
  refine ⟨?_, hgrows, hentered⟩
  exact
    { record := hplace
      format := rfl
      encoding := rfl
      quantization := rfl
      rateFactor := rfl
      rateFactor_pos := Nat.pos_of_ne_zero hrate
      packedBits := rfl
      used_le := Nat.le_of_not_lt hused
      paddingBits := rfl
      alignment := rfl
      aligned := fun hunused halignment => haligned ⟨Nat.lt_of_sub_pos hunused, halignment⟩
      shift := rfl }

/-- Laid out streams follow their declarations one by one. -/
theorem layoutStreams_ok {streams : List StreamDecl} {layouts : List StreamLayout}
    (h : layoutStreams descriptor system records streams = .ok (layouts, entered))
    (hrecords : RecordsOf descriptor system declared records) :
    List.Forall₂ (StreamLayout.LaysOut entered) streams layouts ∧ records <+: entered ∧
      RecordsOf descriptor system (declared ++ streams) entered := by
  induction streams generalizing records declared layouts with
  | nil =>
    cases h
    exact ⟨.nil, List.prefix_rfl, by rwa [List.append_nil]⟩
  | cons stream streams ih =>
    unfold layoutStreams at h
    split at h
    · cases h
    rename_i layout between hstream
    split at h
    · cases h
    rename_i rest further hrest
    cases h
    rcases layoutStream_ok hstream hrecords with ⟨hlayout, hfirst, hbetween⟩
    rcases ih hrest hbetween with ⟨hlayouts, hsecond, hentered⟩
    refine ⟨.cons (hlayout.mono hsecond) hlayouts, hfirst.trans hsecond, ?_⟩
    rwa [List.append_assoc, List.singleton_append] at hentered

variable {capacity : ℕ} {padded : Bool}

/-- A laid out lump is repeated as often as it fits. -/
theorem layoutLump_ok {index : ℕ} {lump : LumpDecl} {layout : LumpLayout}
    (h : layoutLump descriptor system capacity padded records index lump = .ok (layout, entered))
    (hrecords : RecordsOf descriptor system declared records) :
    LumpLayout.LaysOut capacity entered lump layout ∧ records <+: entered ∧
      RecordsOf descriptor system (declared ++ lump.streams) entered := by
  unfold layoutLump at h
  split at h
  · cases h
  rename_i hnonempty
  split at h
  · cases h
  rename_i layouts further hstreams
  dsimp only at h
  split at h
  · cases h
  rename_i hbits
  split at h
  · cases h
  cases h
  rcases layoutStreams_ok hstreams hrecords with ⟨hlayouts, hgrows, hentered⟩
  have hpacked : LumpLayout.bits layouts = lump.bits := StreamLayout.bits_eq_of_laysOut hlayouts
  refine ⟨?_, hgrows, hentered⟩
  exact
    { shift := rfl
      nonempty := by simpa using hnonempty
      streams := hlayouts
      bits_pos := by omega
      repetitions := by rw [hpacked] }

/-- Laid out lumps follow their declarations one by one. -/
theorem layoutLumps_ok {index : ℕ} {lumps : List LumpDecl} {layouts : List LumpLayout}
    (h : layoutLumps descriptor system capacity padded records index lumps = .ok (layouts, entered))
    (hrecords : RecordsOf descriptor system declared records) :
    List.Forall₂ (LumpLayout.LaysOut capacity entered) lumps layouts ∧ records <+: entered ∧
      RecordsOf descriptor system (declared ++ lumps.flatMap (·.streams)) entered := by
  induction lumps generalizing records declared layouts index with
  | nil =>
    cases h
    exact ⟨.nil, List.prefix_rfl, by rwa [List.flatMap_nil, List.append_nil]⟩
  | cons lump lumps ih =>
    unfold layoutLumps at h
    split at h
    · cases h
    rename_i layout between hlump
    split at h
    · cases h
    rename_i rest further hrest
    cases h
    rcases layoutLump_ok hlump hrecords with ⟨hlayout, hfirst, hbetween⟩
    rcases ih hrest hbetween with ⟨hlayouts, hsecond, hentered⟩
    refine ⟨.cons (hlayout.mono hsecond) hlayouts, hfirst.trans hsecond, ?_⟩
    rwa [List.append_assoc, ← List.flatMap_cons] at hentered

/-- The units of a filled chunk: the unused bits stand before or after the lumps. -/
theorem fill_ok {padding : Padding} {used : ℕ} {units filled : List PlanUnit}
    (h : fill padding capacity used units = .ok filled) :
    used ≤ capacity ∧ (padding = .none → used = capacity) ∧
      filled = PlanUnit.gap (padding.leadingBits (capacity - used)) ++ units ++
        PlanUnit.gap (padding.trailingBits (capacity - used)) := by
  unfold fill at h
  split at h
  · cases h
  split at h
  · rename_i hused
    cases h
    cases padding <;> simp [hused, Padding.leadingBits, Padding.trailingBits]
  rename_i hover hspare
  have hgap : PlanUnit.gap (capacity - used) = [.padding (capacity - used)] :=
    if_neg (by omega)
  split at h <;> cases h
  · refine ⟨by omega, nofun, ?_⟩
    simp [Padding.leadingBits, Padding.trailingBits, hgap]
  · refine ⟨by omega, nofun, ?_⟩
    simp [Padding.leadingBits, Padding.trailingBits, hgap]

/-- What a plan that was built consists of. -/
structure BuiltFrom (descriptor : Descriptor) (system : System) (chunk : ChunkDecl)
    (plan : ChunkPlan) (layouts : List LumpLayout) : Prop where
  /-- Words have the declared width. -/
  sizeWord : plan.wordSize.bytes = chunk.sizeWord
  /-- There are the declared words. -/
  countWords : plan.countWords = chunk.countWords
  /-- There is a word. -/
  countWords_pos : 0 < chunk.countWords
  /-- Words have the declared byte order. -/
  endian : plan.endian = chunk.endian
  /-- Bits are taken from the declared end. -/
  shift : plan.shift = chunk.shift
  /-- The size in bits is a size. -/
  capacity_lt : plan.capacityBits < sizeLimit
  /-- Every lump is laid out, in the order of the declarations. -/
  lumps : List.Forall₂ (LumpLayout.LaysOut plan.capacityBits plan.streams) chunk.lumps layouts
  /-- There is a record for every declared stream. -/
  records : RecordsOf descriptor system (chunk.lumps.flatMap (·.streams)) plan.streams
  /-- The lumps fit. -/
  used_le : (layouts.map (·.consumed)).sum ≤ plan.capacityBits
  /-- Without padding they fill the chunk. -/
  full : chunk.padding = .none → (layouts.map (·.consumed)).sum = plan.capacityBits
  /-- The units are those of the lumps, with the unused bits before or after them. -/
  units : plan.units =
    PlanUnit.gap
        (chunk.padding.leadingBits (plan.capacityBits - (layouts.map (·.consumed)).sum)) ++
      layouts.flatMap (·.units) ++
      PlanUnit.gap
        (chunk.padding.trailingBits (plan.capacityBits - (layouts.map (·.consumed)).sum))

/-- A width of so many bytes has so many bytes. -/
theorem ofBytes_ok {bytes : ℕ} {size : WordSize} (h : WordSize.ofBytes bytes = .ok size) :
    size.bytes = bytes := by
  unfold WordSize.ofBytes at h
  split at h <;> cases h <;> rfl

/-- A chunk's size in bits, where it has one. -/
theorem capacityBits?_eq_some {chunk : ChunkDecl} {bits : ℕ} (h : chunk.capacityBits? = some bits) :
    bits = chunk.sizeWord * chunk.countWords * 8 ∧ bits < sizeLimit := by
  simp only [ChunkDecl.capacityBits?, ChunkDecl.sizeBytes?, Option.bind_eq_some_iff,
    Option.ite_none_right_eq_some, Option.some.injEq] at h
  rcases h with ⟨size, ⟨-, rfl⟩, hlimit, rfl⟩
  exact ⟨rfl, hlimit⟩

/-- A plan is built from the layouts of the lumps. -/
theorem build_ok {chunk : ChunkDecl} {plan : ChunkPlan}
    (h : build descriptor system chunk = .ok plan) :
    ∃ layouts, BuiltFrom descriptor system chunk plan layouts := by
  unfold build at h
  split at h
  · cases h
  rename_i wordSize hsize
  split at h
  · cases h
  rename_i hcount
  split at h
  · cases h
  rename_i bits hbits
  split at h
  · cases h
  rename_i lumps streams hlumps
  split at h
  · cases h
  rename_i units hunits
  cases h
  rcases capacityBits?_eq_some hbits with ⟨rfl, hlimit⟩
  rcases layoutLumps_ok hlumps RecordsOf.nil with ⟨hlayouts, -, hrecords⟩
  rcases fill_ok hunits with ⟨hused, hfull, hfilled⟩
  have hcapacity : capacityBits ⟨wordSize, chunk.endian, chunk.shift, chunk.countWords, units,
      streams⟩ = chunk.sizeWord * chunk.countWords * 8 := by
    rw [capacityBits, sizeBytes, ofBytes_ok hsize]
  refine ⟨lumps, ?_⟩
  exact
    { sizeWord := ofBytes_ok hsize
      countWords := rfl
      countWords_pos := Nat.pos_of_ne_zero hcount
      endian := rfl
      shift := rfl
      capacity_lt := by rw [hcapacity]; exact hlimit
      lumps := by rw [hcapacity]; exact hlayouts
      records := hrecords
      used_le := by rw [hcapacity]; exact hused
      full := by rw [hcapacity]; exact hfull
      units := by rw [hcapacity]; exact hfilled }

/-- The declared byte order is copied to the plan and has no other effect on it. -/
theorem build_with_endian (chunk : ChunkDecl) (endian : ByteOrder) :
    build descriptor system { chunk with endian } =
      (build descriptor system chunk).map fun plan => { plan with endian } := by
  have hcapacity : ({ chunk with endian } : ChunkDecl).capacityBits? = chunk.capacityBits? := rfl
  unfold build
  rw [hcapacity]
  dsimp only
  cases WordSize.ofBytes chunk.sizeWord with
  | error error => rfl
  | ok wordSize =>
    dsimp only
    split
    · rfl
    cases chunk.capacityBits? with
    | none => rfl
    | some capacity =>
      dsimp only
      cases layoutLumps descriptor system capacity (chunk.padding != .none) [] 0 chunk.lumps with
      | error error => rfl
      | ok lumps =>
        dsimp only
        cases fill chunk.padding capacity (lumps.1.map (·.consumed)).sum
          (lumps.1.flatMap (·.units)) <;> rfl

end ChunkPlan

end SampleDemux
