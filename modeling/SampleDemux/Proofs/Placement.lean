import SampleDemux.Proofs.Layout
import Mathlib.Algebra.Order.BigOperators.Group.List
import Mathlib.Algebra.Order.Ring.Nat

/-!
# The places of the units of a chunk

The units of a built plan are those that the declaration lists: unused bits before the lumps, every
repetition of every lump with its streams one after the other, and unused bits after the lumps. A
lump that fits fills more than half of the chunk, so at most one lump is repeated, the place of
every unit is a sum of declared sizes, and the units cover the chunk without a gap or an overlap.
The numbers by which samples are handed on are not looked at here.
-/

namespace SampleDemux

/-- What a unit holds, whatever the order in which samples are handed on. -/
inductive UnitShape where
  /-- Unused bits. -/
  | unused
  /-- A sample: the identity of its stream's record and how it is decoded. -/
  | sample (stream : Option String) (format : SampleFormat) (encoding : Encoding)
      (quantization : ℕ)
  deriving DecidableEq

/-- A unit at its place. -/
structure PlacedUnit where
  /-- Bits before the unit. -/
  start : ℕ
  /-- Number of bits. -/
  bits : ℕ
  /-- What the bits hold. -/
  shape : UnitShape
  deriving DecidableEq

/-- Bits of units together. -/
def unitBits (units : List PlanUnit) : ℕ := (units.map (·.bits)).sum

/-- What a unit holds, its stream looked up in a list of records. -/
def PlanUnit.shape (records : List StreamRecord) (unit : PlanUnit) : UnitShape :=
  match unit.kind with
  | .padding => .unused
  | .sample stream decoder _ =>
    .sample ((records[stream]?).map (·.id)) decoder.format decoder.encoding decoder.quantization

/-- Units at their places, the first one at `start`. -/
def placeFrom (records : List StreamRecord) (start : ℕ) : List PlanUnit → List PlacedUnit
  | [] => []
  | unit :: rest =>
    ⟨start, unit.bits, unit.shape records⟩ :: placeFrom records (start + unit.bits) rest

namespace ChunkPlan

/-- The units of a plan at their places. -/
def placed (plan : ChunkPlan) : List PlacedUnit := placeFrom plan.streams 0 plan.units

/-- Bits before a unit of a plan. -/
def startOf (plan : ChunkPlan) (index : ℕ) : ℕ := unitBits (plan.units.take index)

end ChunkPlan

/-- Samples among units. -/
def sampleUnits (units : List PlanUnit) : ℕ := units.countP (!·.isPadding)

/-- A unit of a built plan: it has a bit, and a sample has the width of its decoder and a record. -/
def PlanUnit.WellFormed (records : List StreamRecord) (unit : PlanUnit) : Prop :=
  match unit.kind with
  | .padding => 0 < unit.bits
  | .sample stream decoder _ => unit.bits = decoder.bitWidth ∧ stream < records.length

/-- Unused bits at a place, if there are any. -/
def placedGap (start bits : ℕ) : List PlacedUnit :=
  if bits = 0 then [] else [⟨start, bits, .unused⟩]

namespace StreamDecl

/-- What a sample of a declared stream holds. -/
def shape (stream : StreamDecl) : UnitShape :=
  .sample (some stream.id) stream.format stream.encoding stream.quantization

/-- Unused bits before the samples: all of them if the samples are aligned to the right. -/
def leadingBits (stream : StreamDecl) : ℕ :=
  if stream.alignment = .right then stream.unusedBits else 0

/-- Unused bits after the samples. -/
def trailingBits (stream : StreamDecl) : ℕ :=
  if stream.alignment = .right then 0 else stream.unusedBits

/-- The declared units of a stream from a place on. -/
def placed (stream : StreamDecl) (start : ℕ) : List PlacedUnit :=
  placedGap start stream.leadingBits ++
    (List.range stream.rateFactor).map (fun k =>
      ⟨start + stream.leadingBits + k * stream.sampleBits, stream.sampleBits, stream.shape⟩) ++
    placedGap (start + stream.leadingBits + stream.rateFactor * stream.sampleBits)
      stream.trailingBits

end StreamDecl

namespace LumpDecl

/-- Bits of the streams of a lump before one of them. -/
def streamOffset (lump : LumpDecl) (place : ℕ) : ℕ :=
  ((lump.streams.take place).map (·.packedBits)).sum

/-- How often a lump fits into so many bits. -/
def repetitions (lump : LumpDecl) (capacity : ℕ) : ℕ := capacity / lump.bits

/-- The declared units of one repetition of a lump. -/
def placedRepetition (lump : LumpDecl) (start : ℕ) : List PlacedUnit :=
  (lump.streams.mapIdx fun place stream => stream.placed (start + lump.streamOffset place)).flatten

/-- The declared units of all repetitions of a lump. -/
def placed (lump : LumpDecl) (capacity start : ℕ) : List PlacedUnit :=
  (List.range (lump.repetitions capacity)).flatMap fun r =>
    lump.placedRepetition (start + r * lump.bits)

end LumpDecl

namespace ChunkDecl

/-- Bits of a declared chunk. -/
def capacity (chunk : ChunkDecl) : ℕ := 8 * chunk.sizeWord * chunk.countWords

/-- Bits that the lumps of a declared chunk fill. -/
def usedBits (chunk : ChunkDecl) : ℕ :=
  (chunk.lumps.map fun lump => lump.repetitions chunk.capacity * lump.bits).sum

/-- Unused bits before the lumps. -/
def headBits (chunk : ChunkDecl) : ℕ := chunk.padding.leadingBits (chunk.capacity - chunk.usedBits)

/-- Unused bits after the lumps. -/
def tailBits (chunk : ChunkDecl) : ℕ :=
  chunk.padding.trailingBits (chunk.capacity - chunk.usedBits)

/-- The declared units of a chunk. -/
def placed (chunk : ChunkDecl) : List PlacedUnit :=
  placedGap 0 chunk.headBits ++
    chunk.lumps.flatMap (·.placed chunk.capacity chunk.headBits) ++
    placedGap (chunk.headBits + chunk.usedBits) chunk.tailBits

end ChunkDecl

/-- A count of units adds up over units side by side. -/
structure Additive (count : List PlanUnit → ℕ) : Prop where
  /-- No units count nothing. -/
  nil : count [] = 0
  /-- Units side by side count together. -/
  append : ∀ front back, count (front ++ back) = count front + count back

namespace Additive

variable {count : List PlanUnit → ℕ}

/-- Pieces that count the same count a multiple of it. -/
theorem flatMap_range (h : Additive count) {each : ℕ} {piece : ℕ → List PlanUnit}
    (hpiece : ∀ r, count (piece r) = each) (pieces : ℕ) :
    count ((List.range pieces).flatMap piece) = pieces * each := by
  induction pieces with
  | zero => rw [Nat.zero_mul, List.range_zero, List.flatMap_nil, h.nil]
  | succ pieces ih =>
    rw [List.range_succ, List.flatMap_append, h.append, ih, List.flatMap_singleton, hpiece,
      Nat.succ_mul]

/-- One repetition of a lump counts what its streams count. -/
theorem repetitionUnits (h : Additive count) {made : StreamDecl → StreamLayout → Prop}
    {each : StreamDecl → ℕ}
    (hmade : ∀ {stream layout}, made stream layout →
      ∀ base, count (layout.units base) = each stream)
    {streams : List StreamDecl} {layouts : List StreamLayout}
    (hstreams : List.Forall₂ made streams layouts) (base : ℕ) :
    count (LumpLayout.repetitionUnits base layouts) = (streams.map each).sum := by
  induction hstreams generalizing base with
  | nil => exact h.nil
  | cons hstream _ ih =>
    rw [LumpLayout.repetitionUnits, h.append, hmade hstream, ih]
    rfl

/-- Lumps count together. -/
theorem lumps (h : Additive count) {made : LumpDecl → LumpLayout → Prop} {each : LumpDecl → ℕ}
    (hmade : ∀ {lump layout}, made lump layout → count layout.units = each lump)
    {lumps : List LumpDecl} {layouts : List LumpLayout}
    (hlumps : List.Forall₂ made lumps layouts) :
    count (layouts.flatMap (·.units)) = (lumps.map each).sum := by
  induction hlumps with
  | nil => exact h.nil
  | cons hlump _ ih =>
    rw [List.flatMap_cons, h.append, ih, hmade hlump]
    rfl

end Additive

section Units

variable (records : List StreamRecord)

/-- Bits of units side by side. -/
@[simp]
theorem unitBits_append (front back : List PlanUnit) :
    unitBits (front ++ back) = unitBits front + unitBits back := by
  simp only [unitBits, List.map_append, List.sum_append]

/-- Bits add up. -/
theorem additive_unitBits : Additive unitBits := ⟨rfl, unitBits_append⟩

/-- Bits of a unit before others. -/
theorem unitBits_cons (unit : PlanUnit) (units : List PlanUnit) :
    unitBits (unit :: units) = unit.bits + unitBits units := rfl

/-- Unused bits as units have these bits. -/
@[simp]
theorem unitBits_gap (bits : ℕ) : unitBits (PlanUnit.gap bits) = bits := by
  unfold PlanUnit.gap
  split
  · rename_i hzero
    rw [hzero]
    rfl
  · rfl

/-- Units side by side are placed one after the other. -/
theorem placeFrom_append (start : ℕ) (front back : List PlanUnit) :
    placeFrom records start (front ++ back) =
      placeFrom records start front ++ placeFrom records (start + unitBits front) back := by
  induction front generalizing start with
  | nil => rfl
  | cons unit front ih =>
    rw [List.cons_append, placeFrom, ih, placeFrom, List.cons_append, unitBits_cons, Nat.add_assoc]

/-- Unused bits are placed as they are. -/
theorem placeFrom_gap (start bits : ℕ) :
    placeFrom records start (PlanUnit.gap bits) = placedGap start bits := by
  unfold PlanUnit.gap placedGap
  split <;> rfl

/-- A placed unit stands behind the bits of all units before it. -/
theorem getElem?_placeFrom (start : ℕ) (units : List PlanUnit) (index : ℕ) :
    (placeFrom records start units)[index]? =
      (units[index]?).map fun unit =>
        ⟨start + unitBits (units.take index), unit.bits, unit.shape records⟩ := by
  induction units generalizing start index with
  | nil => rfl
  | cons unit units ih =>
    cases index with
    | zero => rfl
    | succ index =>
      rw [placeFrom, List.getElem?_cons_succ, ih, List.getElem?_cons_succ, List.take_succ_cons,
        unitBits_cons, Nat.add_assoc]

/-- Pieces of one size are placed at multiples of it. -/
theorem placeFrom_flatMap_range {bits : ℕ} {piece : ℕ → List PlanUnit}
    (hpiece : ∀ r, unitBits (piece r) = bits) (start count : ℕ) :
    placeFrom records start ((List.range count).flatMap piece) =
      (List.range count).flatMap fun r => placeFrom records (start + r * bits) (piece r) := by
  induction count with
  | zero => rfl
  | succ count ih =>
    rw [List.range_succ, List.flatMap_append, placeFrom_append, ih,
      additive_unitBits.flatMap_range hpiece, List.flatMap_append, List.flatMap_singleton,
      List.flatMap_singleton]

/-- Samples of units side by side. -/
theorem sampleUnits_append (front back : List PlanUnit) :
    sampleUnits (front ++ back) = sampleUnits front + sampleUnits back :=
  List.countP_append

/-- Samples add up. -/
theorem additive_sampleUnits : Additive sampleUnits := ⟨rfl, sampleUnits_append⟩

/-- Unused bits are no samples. -/
theorem sampleUnits_gap (bits : ℕ) : sampleUnits (PlanUnit.gap bits) = 0 := by
  unfold PlanUnit.gap
  split <;> rfl

/-- Unused bits are well-formed units. -/
theorem wellFormed_gap (bits : ℕ) : ∀ unit ∈ PlanUnit.gap bits, unit.WellFormed records := by
  unfold PlanUnit.gap
  split
  · simp
  · rename_i hbits
    simpa [PlanUnit.WellFormed, PlanUnit.padding] using Nat.pos_of_ne_zero hbits

/-- A component has 1 to 64 bits. -/
theorem Decoder.quantization_bounds (decoder : Decoder) :
    0 < decoder.quantization ∧ decoder.quantization ≤ 64 := by
  have hsupported := decoder.supported
  unfold Encoding.supports at hsupported
  split at hsupported
  · simp only [Bool.or_eq_true, beq_iff_eq] at hsupported
    omega
  · simp only [Bool.and_eq_true, decide_eq_true_eq] at hsupported
    omega

/-- A sample has a bit. -/
theorem Decoder.bitWidth_pos (decoder : Decoder) : 0 < decoder.bitWidth := by
  refine Nat.mul_pos ?_ decoder.quantization_bounds.1
  unfold SampleFormat.components
  split <;> decide

/-- A well-formed unit has a bit. -/
theorem PlanUnit.WellFormed.bits_pos {records : List StreamRecord} {unit : PlanUnit}
    (h : unit.WellFormed records) : 0 < unit.bits := by
  unfold WellFormed at h
  split at h
  · exact h
  · rw [h.1]
    exact Decoder.bitWidth_pos _

/-- Unused bits and the bits of samples are all bits. -/
theorem unitBits_split (units : List PlanUnit) :
    ((units.filter (·.isPadding)).map (·.bits)).sum +
      ((units.filter (!·.isPadding)).map (·.bits)).sum = unitBits units := by
  induction units with
  | nil => rfl
  | cons unit units ih =>
    rw [unitBits_cons, ← ih]
    cases hpadding : unit.isPadding <;>
      simp only [List.filter_cons, hpadding, Bool.not_true, Bool.not_false, if_true, if_false,
        Bool.false_eq_true, List.map_cons, List.sum_cons] <;> omega

end Units

namespace StreamLayout

variable {records : List StreamRecord} {stream : StreamDecl} {layout : StreamLayout}

/-- The units of a stream are its samples between its unused bits. -/
theorem LaysOut.units_eq (h : LaysOut records stream layout) (base : ℕ) :
    layout.units base =
      PlanUnit.gap stream.leadingBits ++ layout.samples base ++
        PlanUnit.gap stream.trailingBits := by
  unfold units StreamDecl.leadingBits StreamDecl.trailingBits PlanUnit.gap
  rw [h.paddingBits, h.alignment]
  by_cases hunused : stream.unusedBits = 0
  · simp [hunused]
  · cases stream.alignment <;> simp [hunused]

/-- Samples of a stream are placed at multiples of their width. -/
theorem LaysOut.placeFrom_samples (h : LaysOut records stream layout) (base start : ℕ) :
    placeFrom records start (layout.samples base) =
      (List.range stream.rateFactor).map fun k =>
        ⟨start + k * stream.sampleBits, stream.sampleBits, stream.shape⟩ := by
  have hunit (k : ℕ) : PlanUnit.shape records
      (.sample layout.stream layout.decoder (layout.callOrder base k)) = stream.shape := by
    simp only [PlanUnit.sample, PlanUnit.shape, StreamDecl.shape, h.record, h.format, h.encoding,
      h.quantization]
  have hbits (k : ℕ) : unitBits
      [.sample layout.stream layout.decoder (layout.callOrder base k)] = stream.sampleBits := by
    rw [← h.bitWidth]
    rfl
  rw [samples, List.map_eq_flatMap, placeFrom_flatMap_range records hbits, h.rateFactor,
    List.map_eq_flatMap]
  refine List.flatMap_congr fun k _ => ?_
  simp only [placeFrom, hunit]
  rw [← h.bitWidth]
  rfl

/-- Samples of a stream have so many bits. -/
theorem LaysOut.unitBits_samples (h : LaysOut records stream layout) (base : ℕ) :
    unitBits (layout.samples base) = stream.rateFactor * stream.sampleBits := by
  have hbits (k : ℕ) : unitBits
      [.sample layout.stream layout.decoder (layout.callOrder base k)] = stream.sampleBits := by
    rw [← h.bitWidth]
    rfl
  rw [samples, List.map_eq_flatMap, additive_unitBits.flatMap_range hbits, h.rateFactor]

/-- The units of a stream have its packed bits. -/
theorem LaysOut.unitBits_units (h : LaysOut records stream layout) (base : ℕ) :
    unitBits (layout.units base) = stream.packedBits := by
  have hused := h.used_le
  rw [h.units_eq, unitBits_append, unitBits_append, h.unitBits_samples, unitBits_gap, unitBits_gap,
    StreamDecl.leadingBits, StreamDecl.trailingBits, StreamDecl.unusedBits]
  split <;> omega

/-- The units of a stream are the declared ones. -/
theorem LaysOut.placeFrom_units (h : LaysOut records stream layout) (base start : ℕ) :
    placeFrom records start (layout.units base) = stream.placed start := by
  rw [h.units_eq, placeFrom_append, placeFrom_append, placeFrom_gap, placeFrom_gap,
    h.placeFrom_samples, unitBits_append, unitBits_gap, h.unitBits_samples, StreamDecl.placed,
    Nat.add_assoc start]

/-- The units of a stream hold its samples. -/
theorem LaysOut.sampleUnits_units (h : LaysOut records stream layout) (base : ℕ) :
    sampleUnits (layout.units base) = stream.rateFactor := by
  have hsample (k : ℕ) : sampleUnits
      [.sample layout.stream layout.decoder (layout.callOrder base k)] = 1 := rfl
  rw [h.units_eq, sampleUnits_append, sampleUnits_append, sampleUnits_gap, sampleUnits_gap, samples,
    List.map_eq_flatMap, additive_sampleUnits.flatMap_range hsample, h.rateFactor]
  omega

/-- The units of a stream are well-formed. -/
theorem LaysOut.wellFormed_units (h : LaysOut records stream layout) (base : ℕ) :
    ∀ unit ∈ layout.units base, unit.WellFormed records := by
  intro unit hunit
  rw [h.units_eq, List.mem_append, List.mem_append] at hunit
  rcases hunit with (hunit | hunit) | hunit
  · exact wellFormed_gap records _ unit hunit
  · rcases List.mem_map.mp hunit with ⟨place, -, rfl⟩
    refine ⟨rfl, ?_⟩
    by_contra hplace
    have hrecord := h.record
    rw [List.getElem?_eq_none (by omega)] at hrecord
    cases hrecord
  · exact wellFormed_gap records _ unit hunit

end StreamLayout

namespace LumpLayout

variable {capacity : ℕ} {records : List StreamRecord}

/-- Each stream of a repetition is placed behind the streams before it. -/
theorem placeFrom_repetitionUnits {streams : List StreamDecl} {layouts : List StreamLayout}
    (h : List.Forall₂ (StreamLayout.LaysOut records) streams layouts) (base start : ℕ) :
    placeFrom records start (repetitionUnits base layouts) =
      (streams.mapIdx fun place stream =>
        stream.placed (start + ((streams.take place).map (·.packedBits)).sum)).flatten := by
  induction h generalizing base start with
  | nil => rfl
  | @cons stream layout streams layouts hstream _ ih =>
    rw [repetitionUnits, placeFrom_append, hstream.placeFrom_units, hstream.unitBits_units, ih,
      List.mapIdx_cons, List.flatten_cons]
    simp only [List.take_zero, List.map_nil, List.take_succ_cons, List.map_cons,
      List.sum_nil, List.sum_cons, Nat.add_zero, Nat.add_assoc]

/-- The units of one repetition are well-formed. -/
theorem wellFormed_repetitionUnits {streams : List StreamDecl} {layouts : List StreamLayout}
    (h : List.Forall₂ (StreamLayout.LaysOut records) streams layouts) (base : ℕ) :
    ∀ unit ∈ repetitionUnits base layouts, unit.WellFormed records := by
  induction h generalizing base with
  | nil => simp [repetitionUnits]
  | cons hstream _ ih =>
    rw [repetitionUnits]
    exact List.forall_mem_append.mpr ⟨hstream.wellFormed_units base, ih _⟩

variable {lump : LumpDecl} {layout : LumpLayout}

/-- One repetition of a laid out lump has the bits of the declared lump. -/
theorem LaysOut.unitBits_repetition (h : LaysOut capacity records lump layout) (base : ℕ) :
    unitBits (repetitionUnits base layout.streams) = lump.bits :=
  additive_unitBits.repetitionUnits (·.unitBits_units) h.streams base

/-- A laid out lump has the bits that it consumes. -/
theorem LaysOut.unitBits_units (h : LaysOut capacity records lump layout) :
    unitBits layout.units = lump.repetitions capacity * lump.bits := by
  rw [units, additive_unitBits.flatMap_range fun r => h.unitBits_repetition (layout.base r),
    h.repetitions, LumpDecl.repetitions]

/-- The units of a laid out lump are the declared ones. -/
theorem LaysOut.placeFrom_units (h : LaysOut capacity records lump layout) (start : ℕ) :
    placeFrom records start layout.units = lump.placed capacity start := by
  rw [units, placeFrom_flatMap_range records fun r => h.unitBits_repetition (layout.base r),
    h.repetitions, LumpDecl.placed, LumpDecl.repetitions]
  refine List.flatMap_congr fun r _ => ?_
  exact placeFrom_repetitionUnits h.streams (layout.base r) _

/-- A laid out lump has the samples of all repetitions. -/
theorem LaysOut.sampleUnits_units (h : LaysOut capacity records lump layout) :
    sampleUnits layout.units =
      lump.repetitions capacity * (lump.streams.map (·.rateFactor)).sum := by
  have hrepetition (r : ℕ) : sampleUnits (repetitionUnits (layout.base r) layout.streams) =
      (lump.streams.map (·.rateFactor)).sum :=
    additive_sampleUnits.repetitionUnits (·.sampleUnits_units) h.streams (layout.base r)
  rw [units, additive_sampleUnits.flatMap_range hrepetition, h.repetitions, LumpDecl.repetitions]

/-- The units of a laid out lump are well-formed. -/
theorem LaysOut.wellFormed_units (h : LaysOut capacity records lump layout) :
    ∀ unit ∈ layout.units, unit.WellFormed records := by
  intro unit hunit
  rcases List.mem_flatMap.mp hunit with ⟨r, -, hunit⟩
  exact wellFormed_repetitionUnits h.streams _ unit hunit

end LumpLayout

/-- A lump that fits fills more than half of the bits. -/
theorem lt_two_mul_repetitions_mul_bits {lump : LumpDecl} {capacity : ℕ} (hbits : 0 < lump.bits)
    (h : 0 < lump.repetitions capacity) :
    capacity < 2 * (lump.repetitions capacity * lump.bits) := by
  have hrest : capacity % lump.bits < lump.bits := Nat.mod_lt _ hbits
  have hfull : lump.bits ≤ lump.repetitions capacity * lump.bits := Nat.le_mul_of_pos_left _ h
  have hsplit := Nat.div_add_mod' capacity lump.bits
  rw [LumpDecl.repetitions] at hfull ⊢
  omega

/-- Of lumps that fit into the bits together, no two are repeated. -/
theorem pairwise_repetitions {lumps : List LumpDecl} {capacity : ℕ}
    (hbits : ∀ lump ∈ lumps, 0 < lump.bits)
    (h : (lumps.map fun lump => lump.repetitions capacity * lump.bits).sum ≤ capacity) :
    lumps.Pairwise fun first second =>
      first.repetitions capacity = 0 ∨ second.repetitions capacity = 0 := by
  induction lumps with
  | nil => exact .nil
  | cons lump lumps ih =>
    simp only [List.map_cons, List.sum_cons] at h ih
    refine List.pairwise_cons.mpr ⟨fun other hother => ?_,
      ih (fun other hother => hbits other (List.mem_cons_of_mem _ hother)) (by omega)⟩
    by_contra! hboth
    have hfirst := lt_two_mul_repetitions_mul_bits (hbits lump List.mem_cons_self)
      (Nat.pos_of_ne_zero hboth.1)
    have hsecond := lt_two_mul_repetitions_mul_bits (hbits other (List.mem_cons_of_mem _ hother))
      (Nat.pos_of_ne_zero hboth.2)
    have hsum : other.repetitions capacity * other.bits ≤
        (lumps.map fun lump => lump.repetitions capacity * lump.bits).sum :=
      List.le_sum_of_mem (List.mem_map.mpr ⟨other, hother, rfl⟩)
    omega

/-- Laid out lumps have bits. -/
theorem bits_pos_of_laysOut {capacity : ℕ} {records : List StreamRecord} {lumps : List LumpDecl}
    {layouts : List LumpLayout}
    (h : List.Forall₂ (LumpLayout.LaysOut capacity records) lumps layouts) :
    ∀ lump ∈ lumps, 0 < lump.bits :=
  forall_mem_of_forall₂ h.flip fun _ _ hlump => hlump.bits_pos

/-- Laid out lumps consume the declared bits. -/
theorem consumed_eq_of_laysOut {capacity : ℕ} {records : List StreamRecord}
    {lumps : List LumpDecl} {layouts : List LumpLayout}
    (h : List.Forall₂ (LumpLayout.LaysOut capacity records) lumps layouts) :
    layouts.map (·.consumed) =
      lumps.map fun lump => lump.repetitions capacity * lump.bits := by
  induction h with
  | nil => rfl
  | cons hlump _ ih =>
    rw [List.map_cons, List.map_cons, hlump.consumed_eq, ih, LumpDecl.repetitions]

/-- The units of laid out lumps are well-formed. -/
theorem wellFormed_lumps {capacity : ℕ} {records : List StreamRecord} {lumps : List LumpDecl}
    {layouts : List LumpLayout}
    (h : List.Forall₂ (LumpLayout.LaysOut capacity records) lumps layouts) :
    ∀ unit ∈ layouts.flatMap (·.units), unit.WellFormed records := by
  induction h with
  | nil => simp
  | cons hlump _ ih =>
    rw [List.flatMap_cons]
    exact List.forall_mem_append.mpr ⟨hlump.wellFormed_units, ih⟩

/-- Since at most one lump is repeated, every lump is placed at the common start. -/
theorem placeFrom_lumps {capacity : ℕ} {records : List StreamRecord} {lumps : List LumpDecl}
    {layouts : List LumpLayout}
    (h : List.Forall₂ (LumpLayout.LaysOut capacity records) lumps layouts)
    (honce : lumps.Pairwise fun first second =>
      first.repetitions capacity = 0 ∨ second.repetitions capacity = 0) (start : ℕ) :
    placeFrom records start (layouts.flatMap (·.units)) =
      lumps.flatMap (·.placed capacity start) := by
  induction h generalizing start with
  | nil => rfl
  | @cons lump layout lumps layouts hlump hlumps ih =>
    rcases List.pairwise_cons.mp honce with ⟨hothers, hrest⟩
    rw [List.flatMap_cons, placeFrom_append, hlump.placeFrom_units, hlump.unitBits_units,
      List.flatMap_cons]
    by_cases hzero : lump.repetitions capacity = 0
    · rw [hzero, Nat.zero_mul, Nat.add_zero, ih hrest]
    · -- The first lump is repeated, so the others are not and have no units to place.
      have hnone (place : ℕ) : lumps.flatMap (·.placed capacity place) = [] := by
        rw [List.flatMap_eq_nil_iff]
        intro other hother
        rw [LumpDecl.placed, (hothers other hother).resolve_left hzero]
        rfl
      rw [ih hrest, hnone, hnone]

namespace ChunkPlan

variable {descriptor : Descriptor} {system : System} {chunk : ChunkDecl} {plan : ChunkPlan}
  {layouts : List LumpLayout}

/-- A built plan has the declared bits. -/
theorem BuiltFrom.capacity_eq (h : BuiltFrom descriptor system chunk plan layouts) :
    plan.capacityBits = chunk.capacity := by
  rw [capacityBits, sizeBytes, h.sizeWord, h.countWords, ChunkDecl.capacity]
  ring

/-- The lumps of a built plan consume the declared bits. -/
theorem BuiltFrom.consumed_eq (h : BuiltFrom descriptor system chunk plan layouts) :
    (layouts.map (·.consumed)).sum = chunk.usedBits := by
  rw [consumed_eq_of_laysOut h.lumps, h.capacity_eq, ChunkDecl.usedBits]

/-- The lumps of a built plan and its unused bits are all its bits. -/
theorem BuiltFrom.head_add_used_add_tail (h : BuiltFrom descriptor system chunk plan layouts) :
    chunk.headBits + chunk.usedBits + chunk.tailBits = chunk.capacity := by
  have hused := h.used_le
  have hfull := h.full
  rw [h.consumed_eq, h.capacity_eq] at hused hfull
  unfold ChunkDecl.headBits ChunkDecl.tailBits
  cases hpadding : chunk.padding with
  | none => simp only [Padding.leadingBits, Padding.trailingBits, hfull hpadding]; omega
  | head => simp only [Padding.leadingBits, Padding.trailingBits]; omega
  | tail => simp only [Padding.leadingBits, Padding.trailingBits]; omega

/-- The units of a built plan stand between its unused bits. -/
theorem BuiltFrom.units_eq (h : BuiltFrom descriptor system chunk plan layouts) :
    plan.units = PlanUnit.gap chunk.headBits ++ layouts.flatMap (·.units) ++
      PlanUnit.gap chunk.tailBits := by
  rw [h.units, h.consumed_eq, h.capacity_eq]
  rfl

/-- The lumps of a built plan have the declared bits. -/
theorem BuiltFrom.unitBits_lumps (h : BuiltFrom descriptor system chunk plan layouts) :
    unitBits (layouts.flatMap (·.units)) = chunk.usedBits := by
  rw [additive_unitBits.lumps (·.unitBits_units) h.lumps, h.capacity_eq, ChunkDecl.usedBits]

/-- The units of a built plan cover its bits. -/
theorem BuiltFrom.unitBits_units (h : BuiltFrom descriptor system chunk plan layouts) :
    unitBits plan.units = plan.capacityBits := by
  rw [h.units_eq, unitBits_append, unitBits_append, unitBits_gap, unitBits_gap, h.unitBits_lumps,
    h.head_add_used_add_tail, h.capacity_eq]

/-- The units of a built plan are the declared ones at their places. -/
theorem BuiltFrom.placed_eq (h : BuiltFrom descriptor system chunk plan layouts) :
    plan.placed = chunk.placed := by
  have hlumps := h.lumps
  have hused := h.used_le
  rw [h.consumed_eq, h.capacity_eq] at hused
  rw [h.capacity_eq] at hlumps
  have honce := pairwise_repetitions (bits_pos_of_laysOut hlumps) hused
  rw [placed, h.units_eq, placeFrom_append, placeFrom_append, placeFrom_gap, placeFrom_gap,
    placeFrom_lumps hlumps honce, unitBits_append, unitBits_gap, h.unitBits_lumps, ChunkDecl.placed]
  simp only [Nat.zero_add]

/-- The units of a built plan are well-formed. -/
theorem BuiltFrom.wellFormed_units (h : BuiltFrom descriptor system chunk plan layouts) :
    ∀ unit ∈ plan.units, unit.WellFormed plan.streams := by
  rw [h.units_eq]
  exact List.forall_mem_append.mpr
    ⟨List.forall_mem_append.mpr ⟨wellFormed_gap _ _, wellFormed_lumps h.lumps⟩,
      wellFormed_gap _ _⟩

/-- The samples of a built plan are those of its lumps. -/
theorem BuiltFrom.sampleCount_eq (h : BuiltFrom descriptor system chunk plan layouts) :
    plan.sampleCount =
      (chunk.lumps.map fun lump =>
        lump.repetitions chunk.capacity * (lump.streams.map (·.rateFactor)).sum).sum := by
  change sampleUnits plan.units = _
  rw [h.units_eq, sampleUnits_append, sampleUnits_append, sampleUnits_gap, sampleUnits_gap,
    additive_sampleUnits.lumps (·.sampleUnits_units) h.lumps, h.capacity_eq, Nat.zero_add,
    Nat.add_zero]

/-- A placed unit is a unit of the plan at its place. -/
theorem exists_unit_of_mem_placed {place : PlacedUnit} (h : place ∈ plan.placed) :
    ∃ index unit, plan.units[index]? = some unit ∧ plan.startOf index = place.start ∧
      unit.bits = place.bits ∧ unit.shape plan.streams = place.shape := by
  rcases List.getElem?_of_mem h with ⟨index, hplace⟩
  rw [placed, getElem?_placeFrom, Option.map_eq_some_iff] at hplace
  rcases hplace with ⟨unit, hunit, rfl⟩
  exact ⟨index, unit, hunit, (Nat.zero_add _).symm, rfl, rfl⟩

/-- A declared sample has its place behind the head, the repetitions and streams before it, its
leading unused bits and the samples before it. -/
theorem mem_placed_of_sample {lump : LumpDecl} {stream : StreamDecl} {r place k : ℕ}
    (hlump : lump ∈ chunk.lumps) (hr : r < lump.repetitions chunk.capacity)
    (hstream : lump.streams[place]? = some stream) (hk : k < stream.rateFactor) :
    (⟨chunk.headBits + r * lump.bits + lump.streamOffset place + stream.leadingBits +
      k * stream.sampleBits, stream.sampleBits, stream.shape⟩ : PlacedUnit) ∈ chunk.placed := by
  refine List.mem_append_left _ (List.mem_append_right _ ?_)
  refine List.mem_flatMap.mpr ⟨lump, hlump, ?_⟩
  refine List.mem_flatMap.mpr ⟨r, List.mem_range.mpr hr, ?_⟩
  rcases List.getElem?_eq_some_iff.mp hstream with ⟨hplace, rfl⟩
  refine List.mem_flatten.mpr ⟨_, List.mem_mapIdx.mpr ⟨place, hplace, rfl⟩, ?_⟩
  refine List.mem_append_left _ (List.mem_append_right _ ?_)
  exact List.mem_map.mpr ⟨k, List.mem_range.mpr hk, rfl⟩

/-- The units of a plan are those that a chunk declares, in order and at their places. -/
structure PlacesUnits (descriptor : Descriptor) (system : System) (chunk : ChunkDecl)
    (plan : ChunkPlan) : Prop where
  /-- The plan has the bits of the words. -/
  capacity_eq : plan.capacityBits = 8 * chunk.sizeWord * chunk.countWords
  /-- Its units are unused bits before the lumps, every repetition of every lump with each stream's
  samples and unused bits, and unused bits after the lumps. -/
  placed_eq : plan.placed = chunk.placed
  /-- Every unit has a bit. -/
  bits_pos : ∀ unit ∈ plan.units, 1 ≤ unit.bits
  /-- The units cover the chunk exactly. -/
  cover : (plan.units.map (·.bits)).sum = 8 * chunk.sizeWord * chunk.countWords
  /-- Every sample starts behind all that is declared before it. -/
  samples : ∀ lump ∈ chunk.lumps, ∀ r < chunk.capacity / lump.bits, ∀ place stream,
    lump.streams[place]? = some stream → ∀ k < stream.rateFactor,
      ∃ index unit, plan.units[index]? = some unit ∧
        unit.shape plan.streams = stream.shape ∧
        unit.bits = stream.format.components * stream.quantization ∧
        plan.startOf index =
          chunk.headBits + r * lump.bits + lump.streamOffset place + stream.leadingBits +
            k * (stream.format.components * stream.quantization)
  /-- Samples are counted by the declaration. -/
  sampleCount_eq : plan.sampleCount =
    (chunk.lumps.map fun lump =>
      chunk.capacity / lump.bits * (lump.streams.map (·.rateFactor)).sum).sum
  /-- Unused bits are all the others. -/
  paddingBits_eq : plan.paddingBits =
    plan.capacityBits - ((plan.units.filter (!·.isPadding)).map (·.bits)).sum
  /-- There is one record for every declared identity, also one that is repeated zero times, in the
  order of the first declarations. -/
  streams_eq : plan.streams.map (·.id) =
    ((chunk.lumps.flatMap (·.streams)).map (·.id)).eraseDups
  /-- A record is made from the first declaration of its identity. -/
  records : ∀ record ∈ plan.streams, ∃ stream band,
    (chunk.lumps.flatMap (·.streams)).find? (·.id == record.id) = some stream ∧
      stream.bands.head?.bind descriptor.band? = some band ∧
      record = .ofDecl stream system band

/-- The units of a built plan are the declared ones, in order and at their places. -/
theorem build_places_units (h : build descriptor system chunk = .ok plan) :
    PlacesUnits descriptor system chunk plan := by
  rcases build_ok h with ⟨layouts, hbuilt⟩
  have hcapacity : plan.capacityBits = 8 * chunk.sizeWord * chunk.countWords := hbuilt.capacity_eq
  have hcover : (plan.units.map (·.bits)).sum = plan.capacityBits := hbuilt.unitBits_units
  refine
    { capacity_eq := hcapacity
      placed_eq := hbuilt.placed_eq
      bits_pos := fun unit hunit => (hbuilt.wellFormed_units unit hunit).bits_pos
      cover := hcover.trans hcapacity
      samples := ?_
      sampleCount_eq := hbuilt.sampleCount_eq
      paddingBits_eq := ?_
      streams_eq := hbuilt.records.ids
      records := hbuilt.records.first }
  · intro lump hlump r hr place stream hstream k hk
    have hplaced := mem_placed_of_sample hlump hr hstream hk
    rw [← hbuilt.placed_eq] at hplaced
    rcases exists_unit_of_mem_placed hplaced with ⟨index, unit, hunit, hstart, hbits, hshape⟩
    exact ⟨index, unit, hunit, hshape, hbits, hstart⟩
  · have hsplit := unitBits_split plan.units
    rw [hbuilt.unitBits_units] at hsplit
    rw [paddingBits]
    omega

end ChunkPlan

/-- A recording whose chunk holds every kind of unit: three words of two bytes, four repetitions of
11 bits of which one is unused before the samples of its first stream, and 4 unused bits at the
head. -/
def packedChunk : ChunkDecl where
  sizeWord := 2
  countWords := 3
  endian := .little
  padding := .head
  shift := .right
  lumps := [{
    streams := [
      { id := "A", rateFactor := 2, packedBits := 5, alignment := .right, format := .real false
        encoding := .sign, quantization := 2, bands := ["L"] },
      { id := "B", packedBits := 6, format := .complex true false true, quantization := 3
        bands := ["L"] }] }]

/-- The bands of such a recording. -/
def packedDescriptor : Descriptor where
  bands := [{ id := "L" }]

/-- The chunk with every kind of unit is built, with its units as they are declared. -/
theorem ChunkPlan.build_places_units_of_packedChunk :
    ∃ plan, build packedDescriptor {} packedChunk = .ok plan ∧
      plan.placed = packedChunk.placed ∧ packedChunk.placed.length = 17 ∧
      plan.sampleCount = 12 ∧ plan.streams.map (·.id) = ["A", "B"] := by
  obtain ⟨plan, hplan⟩ : ∃ plan, build packedDescriptor {} packedChunk = .ok plan := ⟨_, rfl⟩
  have hplaces := build_places_units hplan
  exact ⟨plan, hplan, hplaces.placed_eq, by decide, hplaces.sampleCount_eq, hplaces.streams_eq⟩

end SampleDemux
