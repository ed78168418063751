import SampleDemux.Proofs.Placement

/-!
# Which chunks have a plan

A plan is built of exactly the chunks that are consistent: words of a known width and a size that
fits, streams whose samples fit into their bits, bands for the first declaration of every identity,
and lumps that fit together. The last condition is not checked as such. What is checked is the sum
of the bits that the lumps consume, and as a lump that fits fills more than half of the chunk, the
sum is too large as soon as two lumps fit.
-/

namespace SampleDemux

/-- A declared stream whose samples fit into its bits. -/
structure StreamDecl.Consistent (stream : StreamDecl) : Prop where
  /-- There is a sample. -/
  rateFactor_pos : 1 ≤ stream.rateFactor
  /-- Components have 1 to 64 bits, floating-point ones 32 or 64. -/
  quantization :
    if stream.encoding = .float then stream.quantization = 32 ∨ stream.quantization = 64
    else 1 ≤ stream.quantization ∧ stream.quantization ≤ 64
  /-- The samples fit. -/
  used_le : stream.rateFactor * (stream.format.components * stream.quantization) ≤
    stream.packedBits
  /-- Unused bits have a place. -/
  aligned : stream.rateFactor * (stream.format.components * stream.quantization) <
    stream.packedBits → stream.alignment ≠ .undefined

/-- The first declaration of every identity names a band that there is. -/
def BandsKnown (descriptor : Descriptor) (declared : List StreamDecl) : Prop :=
  ∀ id first, declared.find? (·.id == id) = some first →
    ∃ bandId band, first.bands.head? = some bandId ∧ descriptor.band? bandId = some band

/-- Lumps of a declared chunk that fit into it. -/
def ChunkDecl.fittingLumps (chunk : ChunkDecl) : ℕ :=
  chunk.lumps.countP fun lump => lump.bits ≤ chunk.capacity

/-- A declared chunk with a size, with streams that fit and have bands, and with lumps that fit. -/
structure ChunkDecl.Consistent (descriptor : Descriptor) (chunk : ChunkDecl) : Prop where
  /-- Words have a known width. -/
  sizeWord : chunk.sizeWord ∈ [1, 2, 4, 8]
  /-- There is a word. -/
  countWords_pos : 1 ≤ chunk.countWords
  /-- The size in bits fits in 64 bits. -/
  capacity_lt : chunk.capacity < 2 ^ 64
  /-- Every lump has a stream. -/
  nonempty : ∀ lump ∈ chunk.lumps, lump.streams ≠ []
  /-- The samples of every stream fit. -/
  streams : ∀ lump ∈ chunk.lumps, ∀ stream ∈ lump.streams, stream.Consistent
  /-- Every identity has a band. -/
  bands : BandsKnown descriptor (chunk.lumps.flatMap (·.streams))
  /-- Without padding there is one lump, and it fills the chunk. -/
  filled : chunk.padding = .none → ∃ lump, chunk.lumps = [lump] ∧ lump.bits ∣ chunk.capacity
  /-- With padding one lump fits at most. -/
  fitting : chunk.padding ≠ .none → chunk.fittingLumps ≤ 1

/-- A word has one of the known widths. -/
theorem WordSize.bytes_mem (size : WordSize) : size.bytes ∈ [1, 2, 4, 8] := by
  cases size <;> decide

/-- A known width is that of a word. -/
theorem WordSize.exists_ofBytes {bytes : ℕ} (h : bytes ∈ [1, 2, 4, 8]) :
    ∃ size, WordSize.ofBytes bytes = .ok size := by
  simp only [List.mem_cons, List.not_mem_nil, or_false] at h
  rcases h with rfl | rfl | rfl | rfl <;> exact ⟨_, rfl⟩

/-- A size in bits is one if it fits in 64 bits. -/
theorem ChunkDecl.capacityBits?_eq_some_iff {chunk : ChunkDecl} {bits : ℕ} :
    chunk.capacityBits? = some bits ↔ bits = chunk.capacity ∧ chunk.capacity < 2 ^ 64 := by
  have hcapacity : chunk.sizeWord * chunk.countWords * 8 = chunk.capacity := by
    rw [capacity]
    ring
  have hlimit : sizeLimit = 2 ^ 64 := rfl
  simp only [capacityBits?, sizeBytes?, Option.bind_eq_some_iff, Option.ite_none_right_eq_some,
    Option.some.injEq, hlimit]
  constructor
  · rintro ⟨size, ⟨-, rfl⟩, hbits, rfl⟩
    exact ⟨hcapacity, hcapacity ▸ hbits⟩
  · rintro ⟨rfl, hbits⟩
    rw [← hcapacity] at hbits ⊢
    exact ⟨_, ⟨by omega, rfl⟩, hbits, rfl⟩

section Streams

variable {descriptor : Descriptor} {system : System} {records entered : List StreamRecord}
  {declared : List StreamDecl} {stream : StreamDecl} {layout : StreamLayout}

/-- A supported width is one of those that a consistent stream may have. -/
theorem supports_iff (encoding : Encoding) (quantization : ℕ) :
    encoding.supports quantization = true ↔
      if encoding = .float then quantization = 32 ∨ quantization = 64
      else 1 ≤ quantization ∧ quantization ≤ 64 := by
  cases encoding <;> simp [Encoding.supports]

/-- A stream that was laid out is consistent. -/
theorem StreamLayout.LaysOut.consistent (h : StreamLayout.LaysOut records stream layout) :
    stream.Consistent where
  rateFactor_pos := h.rateFactor_pos
  quantization := by
    rw [← supports_iff, ← h.encoding, ← h.quantization]
    exact layout.decoder.supported
  used_le := h.used_le
  aligned := fun hunused => h.aligned (Nat.sub_pos_of_lt hunused)

/-- Declared identities that have records have bands. -/
theorem RecordsOf.bandsKnown (h : RecordsOf descriptor system declared records) :
    BandsKnown descriptor declared := by
  intro id first hfirst
  have hid : first.id = id := by simpa using List.find?_some hfirst
  have hmem : id ∈ records.map (·.id) := by
    rw [h.mem_iff, ← hid]
    exact List.mem_map_of_mem (List.mem_of_find?_eq_some hfirst)
  rcases List.mem_map.mp hmem with ⟨record, hrecord, rfl⟩
  rcases h.first record hrecord with ⟨stream, band, hstream, hband, -⟩
  obtain rfl : first = stream := Option.some_inj.mp (hfirst.symm.trans hstream)
  rcases Option.bind_eq_some_iff.mp hband with ⟨bandId, hhead, hknown⟩
  exact ⟨bandId, band, hhead, hknown⟩

/-- A stream whose identity was declared before, or else has a band, is entered. -/
theorem ChunkPlan.exists_streamIndex (h : RecordsOf descriptor system declared records)
    {further : List StreamDecl} (hbands : BandsKnown descriptor (declared ++ stream :: further)) :
    ∃ index entered, streamIndex descriptor system records stream = .ok (index, entered) := by
  unfold streamIndex
  cases hplace : records.findIdx? (·.id == stream.id) with
  | some index => exact ⟨index, records, rfl⟩
  | none =>
    have hnew : declared.find? (·.id == stream.id) = none := by
      rw [List.find?_eq_none]
      intro other hother hsame
      have hmem : stream.id ∈ records.map (·.id) :=
        (h.mem_iff _).mpr (List.mem_map.mpr ⟨other, hother, eq_of_beq hsame⟩)
      rcases List.mem_map.mp hmem with ⟨record, hrecord, hid⟩
      have hother := List.findIdx?_eq_none_iff.mp hplace record hrecord
      simp [hid] at hother
    have hfirst : (declared ++ stream :: further).find? (·.id == stream.id) = some stream := by
      simp [List.find?_append, hnew]
    rcases hbands _ _ hfirst with ⟨bandId, band, hhead, hknown⟩
    rcases List.head?_eq_some_iff.mp hhead with ⟨rest, hbandIds⟩
    simp only [hbandIds, hknown]
    exact ⟨_, _, rfl⟩

/-- A consistent stream with a band is laid out. -/
theorem ChunkPlan.exists_layoutStream (h : RecordsOf descriptor system declared records)
    {further : List StreamDecl} (hbands : BandsKnown descriptor (declared ++ stream :: further))
    (hstream : stream.Consistent) :
    ∃ layout entered, layoutStream descriptor system records stream = .ok (layout, entered) := by
  have hsupported := (supports_iff _ _).mpr hstream.quantization
  rcases exists_streamIndex h hbands with ⟨index, entered, hindex⟩
  have hrate := hstream.rateFactor_pos
  have hused := hstream.used_le
  unfold layoutStream
  rw [if_neg (by omega), Decoder.ofWidth?, dif_pos hsupported]
  dsimp only [Decoder.bitWidth]
  rw [if_neg (by omega), if_neg (fun hunaligned => hstream.aligned hunaligned.1 hunaligned.2),
    hindex]
  exact ⟨_, _, rfl⟩

/-- Consistent streams with bands are laid out. -/
theorem ChunkPlan.exists_layoutStreams {streams further : List StreamDecl}
    (h : RecordsOf descriptor system declared records)
    (hbands : BandsKnown descriptor (declared ++ streams ++ further))
    (hstreams : ∀ stream ∈ streams, stream.Consistent) :
    ∃ layouts entered,
      layoutStreams descriptor system records streams = .ok (layouts, entered) := by
  induction streams generalizing declared records with
  | nil => exact ⟨[], records, rfl⟩
  | cons stream streams ih =>
    rcases List.forall_mem_cons.mp hstreams with ⟨hfirst, hrest⟩
    rw [List.append_assoc, List.cons_append] at hbands
    rcases exists_layoutStream h hbands hfirst with ⟨layout, between, hlayout⟩
    have hbetween := (layoutStream_ok hlayout h).2.2
    rw [List.append_cons, ← List.append_assoc] at hbands
    rcases ih hbetween hbands hrest with ⟨layouts, entered, hlayouts⟩
    refine ⟨layout :: layouts, entered, ?_⟩
    simp only [layoutStreams, hlayout, hlayouts]

end Streams

/-- A consistent stream has bits. -/
theorem StreamDecl.Consistent.packedBits_pos {stream : StreamDecl} (h : stream.Consistent) :
    0 < stream.packedBits := by
  have hcomponents : 0 < stream.format.components := by
    unfold SampleFormat.components
    split <;> decide
  have hquantization : 0 < stream.quantization := by
    have hsupported := h.quantization
    split at hsupported <;> omega
  have hused : 0 < stream.rateFactor * (stream.format.components * stream.quantization) :=
    Nat.mul_pos h.rateFactor_pos (Nat.mul_pos hcomponents hquantization)
  exact hused.trans_le h.used_le

/-- A lump of consistent streams has bits. -/
theorem LumpDecl.bits_pos {lump : LumpDecl} (hnonempty : lump.streams ≠ [])
    (hstreams : ∀ stream ∈ lump.streams, stream.Consistent) : 0 < lump.bits := by
  rcases List.exists_mem_of_ne_nil _ hnonempty with ⟨stream, hstream⟩
  have hsum : stream.packedBits ≤ lump.bits :=
    List.le_sum_of_mem (List.mem_map_of_mem hstream)
  exact (hstreams stream hstream).packedBits_pos.trans_le hsum

section Capacity

variable {capacity : ℕ} {lumps : List LumpDecl}

/-- A lump fits if and only if it is repeated. -/
theorem LumpDecl.bits_le_iff {lump : LumpDecl} (hbits : 0 < lump.bits) :
    lump.bits ≤ capacity ↔ lump.repetitions capacity ≠ 0 := by
  rw [repetitions, Nat.div_ne_zero_iff, and_iff_right hbits.ne']

/-- Of lumps that fit into the bits together, at most one fits. -/
theorem countP_fitting_le_one (hbits : ∀ lump ∈ lumps, 0 < lump.bits)
    (hsum : (lumps.map fun lump => lump.repetitions capacity * lump.bits).sum ≤ capacity) :
    lumps.countP (fun lump => lump.bits ≤ capacity) ≤ 1 := by
  have honce := pairwise_repetitions hbits hsum
  clear hsum
  induction honce with
  | nil => exact Nat.zero_le _
  | @cons lump lumps hothers _ ih =>
    rcases List.forall_mem_cons.mp hbits with ⟨hlump, hbits⟩
    by_cases hfirst : lump.bits ≤ capacity
    · have hnone : lumps.countP (fun lump => lump.bits ≤ capacity) = 0 := by
        rw [List.countP_eq_zero]
        intro other hother
        rw [decide_eq_true_iff, LumpDecl.bits_le_iff (hbits other hother), not_not]
        exact (hothers other hother).resolve_left ((LumpDecl.bits_le_iff hlump).mp hfirst)
      rw [List.countP_cons, hnone, Nat.zero_add]
      split <;> omega
    · rw [List.countP_cons_of_neg (by simpa using hfirst)]
      exact ih hbits

/-- Lumps of which at most one fits take no more than the bits together. -/
theorem sum_repetitions_le (hbits : ∀ lump ∈ lumps, 0 < lump.bits)
    (hcount : lumps.countP (fun lump => lump.bits ≤ capacity) ≤ 1) :
    (lumps.map fun lump => lump.repetitions capacity * lump.bits).sum ≤ capacity := by
  induction lumps with
  | nil => exact Nat.zero_le _
  | cons lump lumps ih =>
    rcases List.forall_mem_cons.mp hbits with ⟨hlump, hbits⟩
    simp only [List.map_cons, List.sum_cons] at ih ⊢
    by_cases hfirst : lump.bits ≤ capacity
    · -- The others do not fit, so only this one has bits in the chunk.
      rw [List.countP_cons_of_pos (by simpa using hfirst)] at hcount
      have hothers := List.countP_eq_zero.mp (Nat.le_zero.mp (Nat.le_of_succ_le_succ hcount))
      have hnone : (lumps.map fun lump => lump.repetitions capacity * lump.bits).sum = 0 := by
        refine List.sum_eq_zero fun bits hmem => ?_
        rcases List.mem_map.mp hmem with ⟨other, hother, rfl⟩
        have hzero : other.repetitions capacity = 0 := by
          by_contra hrepeated
          have hfits := (LumpDecl.bits_le_iff (hbits other hother)).mpr hrepeated
          exact hothers other hother (decide_eq_true hfits)
        rw [hzero, Nat.zero_mul]
      rw [hnone, Nat.add_zero]
      exact Nat.div_mul_le_self _ _
    · rw [List.countP_cons_of_neg (by simpa using hfirst)] at hcount
      have hzero : lump.repetitions capacity = 0 :=
        not_not.mp fun hrepeated => hfirst ((LumpDecl.bits_le_iff hlump).mpr hrepeated)
      rw [hzero, Nat.zero_mul, Nat.zero_add]
      exact ih hbits hcount

/-- Lumps fit into the bits together if and only if at most one of them fits. -/
theorem sum_repetitions_le_iff (hbits : ∀ lump ∈ lumps, 0 < lump.bits) :
    (lumps.map fun lump => lump.repetitions capacity * lump.bits).sum ≤ capacity ↔
      lumps.countP (fun lump => lump.bits ≤ capacity) ≤ 1 :=
  ⟨countP_fitting_le_one hbits, sum_repetitions_le hbits⟩

/-- Lumps whose bits divide the bits fill them once each. -/
theorem sum_repetitions_of_dvd (hdvd : ∀ lump ∈ lumps, lump.bits ∣ capacity) :
    (lumps.map fun lump => lump.repetitions capacity * lump.bits).sum =
      lumps.length * capacity := by
  induction lumps with
  | nil => exact (Nat.zero_mul _).symm
  | cons lump lumps ih =>
    rcases List.forall_mem_cons.mp hdvd with ⟨hlump, hrest⟩
    have hfill : lump.repetitions capacity * lump.bits = capacity := Nat.div_mul_cancel hlump
    simp only [List.map_cons, List.sum_cons, List.length_cons] at ih ⊢
    rw [hfill, ih hrest, Nat.succ_mul, Nat.add_comm]

end Capacity

section Lumps

variable {descriptor : Descriptor} {system : System} {records entered : List StreamRecord}
  {declared : List StreamDecl} {capacity index : ℕ} {padded : Bool} {lump : LumpDecl}
  {lumps : List LumpDecl}

/-- A lump of consistent streams with bands is laid out if it is padded or divides the chunk. -/
theorem ChunkPlan.exists_layoutLump (h : RecordsOf descriptor system declared records)
    {further : List StreamDecl}
    (hbands : BandsKnown descriptor (declared ++ lump.streams ++ further))
    (hnonempty : lump.streams ≠ [])
    (hstreams : ∀ stream ∈ lump.streams, stream.Consistent)
    (hdvd : padded = false → lump.bits ∣ capacity) (index : ℕ) :
    ∃ layout entered,
      layoutLump descriptor system capacity padded records index lump = .ok (layout, entered) := by
  rcases exists_layoutStreams h hbands hstreams with ⟨layouts, entered, hlayouts⟩
  have hbits : LumpLayout.bits layouts = lump.bits :=
    StreamLayout.bits_eq_of_laysOut (layoutStreams_ok hlayouts h).1
  have hpositive := LumpDecl.bits_pos hnonempty hstreams
  have hintegral : ¬(capacity % lump.bits ≠ 0 ∧ padded = false) := fun hrest =>
    hrest.1 (Nat.mod_eq_zero_of_dvd (hdvd hrest.2))
  unfold layoutLump
  rw [if_neg (by simpa using hnonempty), hlayouts]
  dsimp only
  rw [hbits, if_neg (by omega), if_neg hintegral]
  exact ⟨_, _, rfl⟩

/-- Lumps of consistent streams with bands are laid out if they are padded or divide the chunk. -/
theorem ChunkPlan.exists_layoutLumps (h : RecordsOf descriptor system declared records)
    (hbands : BandsKnown descriptor (declared ++ lumps.flatMap (·.streams)))
    (hnonempty : ∀ lump ∈ lumps, lump.streams ≠ [])
    (hstreams : ∀ lump ∈ lumps, ∀ stream ∈ lump.streams, stream.Consistent)
    (hdvd : padded = false → ∀ lump ∈ lumps, lump.bits ∣ capacity) (index : ℕ) :
    ∃ layouts entered,
      layoutLumps descriptor system capacity padded records index lumps =
        .ok (layouts, entered) := by
  induction lumps generalizing declared records index with
  | nil => exact ⟨[], records, rfl⟩
  | cons lump lumps ih =>
    rw [List.forall_mem_cons] at hnonempty hstreams
    rw [List.flatMap_cons, ← List.append_assoc] at hbands
    have hfirst := fun hpadded => hdvd hpadded lump List.mem_cons_self
    have hothers := fun hpadded other hother =>
      hdvd hpadded other (List.mem_cons_of_mem lump hother)
    rcases exists_layoutLump h hbands hnonempty.1 hstreams.1 hfirst index with
      ⟨layout, between, hlayout⟩
    have hbetween := (layoutLump_ok hlayout h).2.2
    rcases ih hbetween hbands hnonempty.2 hstreams.2 hothers (index + 1) with
      ⟨layouts, entered, hlayouts⟩
    refine ⟨layout :: layouts, entered, ?_⟩
    simp only [layoutLumps, hlayout, hlayouts]

/-- A lump that is laid out unpadded divides the chunk. -/
theorem ChunkPlan.dvd_of_layoutLump {layout : LumpLayout}
    (hlayout : layoutLump descriptor system capacity false records index lump =
      .ok (layout, entered))
    (h : RecordsOf descriptor system declared records) : lump.bits ∣ capacity := by
  unfold layoutLump at hlayout
  split at hlayout
  · cases hlayout
  split at hlayout
  · cases hlayout
  rename_i layouts further hlayouts
  have hbits : LumpLayout.bits layouts = lump.bits :=
    StreamLayout.bits_eq_of_laysOut (layoutStreams_ok hlayouts h).1
  dsimp only at hlayout
  split at hlayout
  · cases hlayout
  split at hlayout
  · cases hlayout
  · rename_i hintegral
    rw [hbits] at hintegral
    exact Nat.dvd_of_mod_eq_zero (not_not.mp fun hrest => hintegral ⟨hrest, rfl⟩)

/-- Lumps that are laid out unpadded divide the chunk. -/
theorem ChunkPlan.dvd_of_layoutLumps {layouts : List LumpLayout}
    (hlayouts : layoutLumps descriptor system capacity false records index lumps =
      .ok (layouts, entered))
    (h : RecordsOf descriptor system declared records) :
    ∀ lump ∈ lumps, lump.bits ∣ capacity := by
  induction lumps generalizing declared records index layouts with
  | nil => exact List.forall_mem_nil _
  | cons lump lumps ih =>
    unfold layoutLumps at hlayouts
    split at hlayouts
    · cases hlayouts
    rename_i layout between hlayout
    split at hlayouts
    · cases hlayouts
    rename_i rest further hrest
    cases hlayouts
    exact List.forall_mem_cons.mpr
      ⟨dvd_of_layoutLump hlayout h, ih hrest (layoutLump_ok hlayout h).2.2⟩

end Lumps

namespace ChunkPlan

variable (descriptor : Descriptor) (system : System) (chunk : ChunkDecl)

/-- A chunk is filled by units that fit, and without padding by units that fill it. -/
theorem exists_fill {padding : Padding} {capacity used : ℕ} (units : List PlanUnit)
    (hused : used ≤ capacity) (hfull : padding = .none → used = capacity) :
    ∃ filled, fill padding capacity used units = .ok filled := by
  unfold fill
  rw [if_neg (by omega)]
  split
  · exact ⟨_, rfl⟩
  · rename_i hspare
    cases padding with
    | head => exact ⟨_, rfl⟩
    | tail => exact ⟨_, rfl⟩
    | none => exact absurd (hfull rfl) hspare

variable {descriptor system chunk}

/-- Without padding every lump of a chunk with a plan divides it. -/
theorem dvd_of_build {plan : ChunkPlan} (h : build descriptor system chunk = .ok plan)
    (hpadding : chunk.padding = .none) : ∀ lump ∈ chunk.lumps, lump.bits ∣ chunk.capacity := by
  have hpadded : (chunk.padding != .none) = false := by rw [hpadding]; rfl
  unfold build at h
  rw [hpadded] at h
  split at h
  · cases h
  split at h
  · cases h
  split at h
  · cases h
  rename_i bits hbits
  split at h
  · cases h
  rename_i lumps streams hlumps
  rw [← (ChunkDecl.capacityBits?_eq_some_iff.mp hbits).1]
  exact dvd_of_layoutLumps hlumps RecordsOf.nil

/-- A chunk with a plan is consistent. -/
theorem consistent_of_build {plan : ChunkPlan} (h : build descriptor system chunk = .ok plan) :
    chunk.Consistent descriptor := by
  rcases build_ok h with ⟨layouts, hbuilt⟩
  have hcapacity : plan.capacityBits = chunk.capacity := hbuilt.capacity_eq
  have hlumps := hbuilt.lumps
  have hused := hbuilt.used_le
  have hfull := hbuilt.full
  rw [hbuilt.consumed_eq, hcapacity] at hused hfull
  rw [hcapacity] at hlumps
  have hsize : chunk.sizeWord ∈ [1, 2, 4, 8] := hbuilt.sizeWord ▸ plan.wordSize.bytes_mem
  exact
    { sizeWord := hsize
      countWords_pos := hbuilt.countWords_pos
      capacity_lt := hcapacity ▸ hbuilt.capacity_lt
      nonempty := forall_mem_of_forall₂ hlumps.flip fun _ _ hlump => hlump.nonempty
      streams := forall_mem_of_forall₂ hlumps.flip fun _ _ hlump =>
        forall_mem_of_forall₂ hlump.streams.flip fun _ _ hstream => hstream.consistent
      bands := hbuilt.records.bandsKnown
      filled := by
        intro hpadding
        have hdvd := dvd_of_build h hpadding
        have hword : 0 < chunk.sizeWord := by
          simp only [List.mem_cons, List.not_mem_nil, or_false] at hsize
          omega
        have hpositive : 0 < chunk.capacity :=
          Nat.mul_pos (Nat.mul_pos (by decide) hword) hbuilt.countWords_pos
        have hcount : chunk.lumps.length * chunk.capacity = 1 * chunk.capacity := by
          rw [← sum_repetitions_of_dvd hdvd, Nat.one_mul]
          exact hfull hpadding
        rcases List.length_eq_one_iff.mp (Nat.eq_of_mul_eq_mul_right hpositive hcount) with
          ⟨lump, hlump⟩
        exact ⟨lump, hlump, hdvd lump (hlump ▸ List.mem_singleton_self lump)⟩
      fitting := fun _ => (sum_repetitions_le_iff (bits_pos_of_laysOut hlumps)).mp hused }

/-- A consistent chunk has a plan. -/
theorem exists_build (h : chunk.Consistent descriptor) :
    ∃ plan, build descriptor system chunk = .ok plan := by
  rcases WordSize.exists_ofBytes h.sizeWord with ⟨size, hsize⟩
  have hcapacity := ChunkDecl.capacityBits?_eq_some_iff.mpr ⟨rfl, h.capacity_lt⟩
  have hdvd : (chunk.padding != .none) = false → ∀ lump ∈ chunk.lumps,
      lump.bits ∣ chunk.capacity := by
    intro hpadding lump hlump
    rcases h.filled (by simpa using hpadding) with ⟨only, honly, hdivides⟩
    rw [honly, List.mem_singleton] at hlump
    exact hlump ▸ hdivides
  have hnone : RecordsOf descriptor system [] [] := RecordsOf.nil
  rcases exists_layoutLumps hnone h.bands h.nonempty h.streams hdvd 0 with
    ⟨layouts, entered, hlayouts⟩
  have hlumps := (layoutLumps_ok hlayouts RecordsOf.nil).1
  have hbits := bits_pos_of_laysOut hlumps
  have hconsumed := congrArg List.sum (consumed_eq_of_laysOut hlumps)
  have hfull : chunk.padding = .none → (layouts.map (·.consumed)).sum = chunk.capacity := by
    intro hpadding
    rcases h.filled hpadding with ⟨only, honly, -⟩
    rw [hconsumed, sum_repetitions_of_dvd (hdvd (by rw [hpadding]; rfl)), honly,
      List.length_singleton, Nat.one_mul]
  have hused : (layouts.map (·.consumed)).sum ≤ chunk.capacity := by
    by_cases hpadding : chunk.padding = .none
    · exact (hfull hpadding).le
    · rw [hconsumed, sum_repetitions_le_iff hbits]
      exact h.fitting hpadding
  rcases exists_fill (layouts.flatMap (·.units)) hused hfull with ⟨units, hunits⟩
  have hcount := h.countWords_pos
  unfold build
  simp only [hsize, hcapacity, hlayouts, hunits]
  rw [if_neg (by omega)]
  exact ⟨_, rfl⟩

/-- A chunk is rejected if two of its lumps fit, whatever its padding. -/
theorem not_consistent_of_two_le (h : 2 ≤ chunk.fittingLumps) :
    ¬chunk.Consistent descriptor := by
  intro hconsistent
  by_cases hpadding : chunk.padding = .none
  · rcases hconsistent.filled hpadding with ⟨lump, hlump, -⟩
    have hcount : chunk.fittingLumps ≤ chunk.lumps.length := List.countP_le_length
    rw [hlump, List.length_singleton] at hcount
    omega
  · have hcount := hconsistent.fitting hpadding
    omega

/-- A plan is built of a chunk if and only if the chunk is consistent; every other chunk has an
error. In particular a chunk of which two lumps fit has one, whatever its padding. -/
theorem build_ok_iff_consistent (descriptor : Descriptor) (system : System) (chunk : ChunkDecl) :
    ((∃ plan, build descriptor system chunk = .ok plan) ↔ chunk.Consistent descriptor) ∧
      (2 ≤ chunk.fittingLumps → ∃ error, build descriptor system chunk = .error error) := by
  have hiff : (∃ plan, build descriptor system chunk = .ok plan) ↔
      chunk.Consistent descriptor :=
    ⟨fun ⟨_, hplan⟩ => consistent_of_build hplan, exists_build⟩
  refine ⟨hiff, fun hcount => ?_⟩
  cases hbuild : build descriptor system chunk with
  | error error => exact ⟨error, rfl⟩
  | ok plan =>
    exact absurd (hiff.mp ⟨plan, hbuild⟩) (not_consistent_of_two_le hcount)

end ChunkPlan

/-- A chunk of four bytes, filled from its head, with lumps of so many bits. -/
def chunkOfLumps (bits : List ℕ) : ChunkDecl where
  sizeWord := 1
  countWords := 4
  endian := .little
  padding := .head
  shift := .left
  lumps := bits.map fun packedBits => {
    streams := [{ id := "A", packedBits, alignment := .left, format := .real false
                  quantization := 2, bands := ["L"] }] }

/-- A lump that fits stands beside one that does not; beside another one that fits it does not. -/
theorem ChunkPlan.build_ok_iff_consistent_of_chunkOfLumps :
    (chunkOfLumps [24, 40]).Consistent packedDescriptor ∧
      ∃ error, build packedDescriptor {} (chunkOfLumps [24, 2]) = .error error :=
  ⟨(build_ok_iff_consistent packedDescriptor {} (chunkOfLumps [24, 40])).1.mp ⟨_, rfl⟩,
    (build_ok_iff_consistent packedDescriptor {} (chunkOfLumps [24, 2])).2 (by decide)⟩

end SampleDemux
