import SampleDemux.Proofs.Placement

/-!
# The order in which samples are handed on

Call orders are numbers that several streams of a lump may share, so the order of a whole chunk is
not read off them. What one declared stream gets is: inside a repetition its numbers lie in a window
of its own, and the windows of two repetitions do not meet. Sorting therefore hands its samples on
by whole repetitions, in the lump's direction, and by whole runs, in the stream's direction. What
the streams of one lump do to each other is left open.
-/

namespace SampleDemux

/-- Items in a direction: as they are, or reversed. -/
def Direction.arrange {α : Type} (direction : Direction) (items : List α) : List α :=
  match direction with
  | .left => items
  | .right => items.reverse

/-- Units that unused bits make: one, if there are any bits. -/
def gapUnits (bits : ℕ) : ℕ := if bits = 0 then 0 else 1

namespace StreamDecl

/-- Units of one repetition of a declared stream, unused bits included. -/
def unitCount (stream : StreamDecl) : ℕ :=
  gapUnits stream.leadingBits + stream.rateFactor + gapUnits stream.trailingBits

end StreamDecl

namespace LumpDecl

/-- Samples of one repetition of a declared lump. -/
def samples (lump : LumpDecl) : ℕ := (lump.streams.map (·.rateFactor)).sum

/-- Samples of one repetition before those of a stream. -/
def samplesBefore (lump : LumpDecl) (place : ℕ) : ℕ :=
  ((lump.streams.take place).map (·.rateFactor)).sum

/-- Units of one repetition of a declared lump. -/
def unitCount (lump : LumpDecl) : ℕ := (lump.streams.map (·.unitCount)).sum

/-- Units of one repetition before those of a stream. -/
def unitsBefore (lump : LumpDecl) (place : ℕ) : ℕ :=
  ((lump.streams.take place).map (·.unitCount)).sum

/-- The number from which a stream of a declared lump is numbered in a repetition. -/
def windowStart (lump : LumpDecl) (capacity place r : ℕ) : ℕ :=
  (match lump.shift with
    | .left => r
    | .right => lump.repetitions capacity - r) * lump.samples + lump.samplesBefore place

end LumpDecl

/-- The number of a sample of a declared stream whose window begins at a number. -/
def StreamDecl.orderFrom (stream : StreamDecl) (start k : ℕ) : ℕ :=
  match stream.shift with
  | .left => start + k
  | .right => start + stream.rateFactor - k

namespace ChunkDecl

/-- Index of a sample among the units of a declared chunk: the unused bits at the head, the
repetitions before it, the streams before it, the unused bits of its stream and the samples before
it are further units. -/
def sampleIndex (chunk : ChunkDecl) (lump : LumpDecl) (place : ℕ) (stream : StreamDecl) (r k : ℕ) :
    ℕ :=
  gapUnits chunk.headBits + r * lump.unitCount + lump.unitsBefore place +
    gapUnits stream.leadingBits + k

/-- Indices of the samples of a declared stream in the order of their bits, one list for each
repetition of its lump. -/
def sampleIndices (chunk : ChunkDecl) (lump : LumpDecl) (place : ℕ) (stream : StreamDecl) :
    List (List ℕ) :=
  (List.range (lump.repetitions chunk.capacity)).map fun r =>
    (List.range stream.rateFactor).map (chunk.sampleIndex lump place stream r)

end ChunkDecl

/-- Indices of the samples of a plan, in the order of their bits. -/
def ChunkPlan.sampleIndices (plan : ChunkPlan) : List ℕ :=
  (List.range plan.units.length).filter fun index =>
    (plan.units[index]?).any (!·.isPadding)

section Arrange

variable {α β : Type} {direction : Direction}

/-- Arranging keeps the items. -/
@[simp]
theorem mem_arrange {items : List α} {item : α} :
    item ∈ direction.arrange items ↔ item ∈ items := by
  cases direction <;> simp [Direction.arrange]

/-- Items can be changed before they are arranged or after. -/
theorem arrange_map (f : α → β) (items : List α) :
    direction.arrange (items.map f) = (direction.arrange items).map f := by
  cases direction <;> simp [Direction.arrange]

/-- Numbers that are arranged come one after the other in their direction. -/
theorem pairwise_arrange_range {follows : ℕ → ℕ → Prop} (count : ℕ)
    (hleft : direction = .left → ∀ i j, i < j → j < count → follows i j)
    (hright : direction = .right → ∀ i j, i < j → j < count → follows j i) :
    (direction.arrange (List.range count)).Pairwise follows := by
  cases direction with
  | left =>
    refine List.pairwise_lt_range.imp_of_mem fun hi hj hlt => ?_
    exact hleft rfl _ _ hlt (List.mem_range.mp hj)
  | right =>
    refine List.pairwise_reverse.mpr (List.pairwise_lt_range.imp_of_mem fun hi hj hlt => ?_)
    exact hright rfl _ _ hlt (List.mem_range.mp hj)

end Arrange

section Windows

variable {lump : LumpDecl} {stream : StreamDecl} {capacity place : ℕ}

/-- The window of a stream begins behind its window in the repetition that is handed on before. -/
theorem pairwise_windowStart (lump : LumpDecl) (capacity place : ℕ) :
    (lump.shift.arrange (List.range (lump.repetitions capacity))).Pairwise fun first second =>
      lump.windowStart capacity place first + lump.samples ≤
        lump.windowStart capacity place second := by
  refine pairwise_arrange_range _ (fun hshift i j hlt _ => ?_) (fun hshift i j hlt hbound => ?_)
  · have hnext : (i + 1) * lump.samples ≤ j * lump.samples := Nat.mul_le_mul_right _ hlt
    simp only [LumpDecl.windowStart, hshift]
    rw [Nat.succ_mul] at hnext
    omega
  · have hnext : (lump.repetitions capacity - j + 1) * lump.samples ≤
        (lump.repetitions capacity - i) * lump.samples := Nat.mul_le_mul_right _ (by omega)
    simp only [LumpDecl.windowStart, hshift]
    rw [Nat.succ_mul] at hnext
    omega

/-- In a window, numbers rise along the stream's direction. -/
theorem pairwise_orderFrom (start : ℕ) :
    (stream.shift.arrange (List.range stream.rateFactor)).Pairwise fun first second =>
      stream.orderFrom start first < stream.orderFrom start second := by
  refine pairwise_arrange_range _ (fun hshift i j hlt _ => ?_) (fun hshift i j hlt hbound => ?_)
  · simp only [StreamDecl.orderFrom, hshift]
    omega
  · simp only [StreamDecl.orderFrom, hshift]
    omega

/-- Windows that begin apart by the samples of a stream do not meet: upwards they hold their first
number and not the last, downwards the last and not the first. -/
theorem orderFrom_lt_orderFrom {start next i j : ℕ} (hwindows : start + stream.rateFactor ≤ next)
    (hi : i < stream.rateFactor) (hj : j < stream.rateFactor) :
    stream.orderFrom start i < stream.orderFrom next j := by
  unfold StreamDecl.orderFrom
  cases stream.shift with
  | left => simp only; omega
  | right => simp only; omega

/-- A stream has no more samples than its lump. -/
theorem rateFactor_le_samples (hstream : lump.streams[place]? = some stream) :
    stream.rateFactor ≤ lump.samples :=
  List.le_sum_of_mem (List.mem_map.mpr ⟨stream, List.mem_of_getElem? hstream, rfl⟩)

end Windows

/-- Units hold a run of units behind so many others, which have so many bits. -/
def HoldsAt (units run : List PlanUnit) (index start : ℕ) : Prop :=
  ∃ front back, units = front ++ run ++ back ∧ front.length = index ∧ unitBits front = start

namespace HoldsAt

variable {units run part : List PlanUnit} {unit : PlanUnit} {index place start offset : ℕ}

/-- A run inside a run stands behind both fronts. -/
theorem trans (h : HoldsAt units run index start) (hpart : HoldsAt run part place offset) :
    HoldsAt units part (index + place) (start + offset) := by
  rcases h with ⟨front, back, rfl, rfl, rfl⟩
  rcases hpart with ⟨before, after, rfl, rfl, rfl⟩
  refine ⟨front ++ before, after ++ back, by simp, by simp, unitBits_append ..⟩

/-- A run may have more units before and behind it. -/
theorem of_append (h : HoldsAt run part place offset) (front back : List PlanUnit) :
    HoldsAt (front ++ run ++ back) part (front.length + place) (unitBits front + offset) :=
  trans ⟨front, back, rfl, rfl, rfl⟩ h

/-- The first unit of a run is found at its place. -/
theorem getElem?_eq (h : HoldsAt units [unit] index start) :
    units[index]? = some unit ∧ unitBits (units.take index) = start := by
  rcases h with ⟨front, back, rfl, rfl, rfl⟩
  constructor
  · rw [List.append_assoc, List.getElem?_append_right le_rfl, Nat.sub_self]
    rfl
  · rw [List.append_assoc, List.take_left]

/-- Of pieces of one size, each stands behind a multiple of it. -/
theorem flatMap_range {piece : ℕ → List PlanUnit} {size bits count r : ℕ}
    (hsize : ∀ r, (piece r).length = size) (hbits : ∀ r, unitBits (piece r) = bits)
    (hr : r < count) :
    HoldsAt ((List.range count).flatMap piece) (piece r) (r * size) (r * bits) := by
  have hlength : Additive List.length := ⟨rfl, fun _ _ => List.length_append⟩
  induction count with
  | zero => omega
  | succ count ih =>
    rw [List.range_succ, List.flatMap_append, List.flatMap_singleton]
    by_cases hlast : r < count
    · rcases ih hlast with ⟨front, back, hunits, hindex, hstart⟩
      exact ⟨front, back ++ piece count, by rw [hunits, List.append_assoc], hindex, hstart⟩
    · obtain rfl : r = count := by omega
      refine ⟨(List.range r).flatMap piece, [], (List.append_nil _).symm, ?_, ?_⟩
      · exact hlength.flatMap_range hsize r
      · exact additive_unitBits.flatMap_range hbits r

end HoldsAt

/-- Unused bits make one unit, if there are any. -/
theorem length_gap (bits : ℕ) : (PlanUnit.gap bits).length = gapUnits bits := by
  unfold PlanUnit.gap gapUnits
  split <;> rfl

namespace StreamLayout

variable {records : List StreamRecord} {stream : StreamDecl} {layout : StreamLayout}

/-- A laid out stream has the declared units. -/
theorem LaysOut.length_units (h : LaysOut records stream layout) (base : ℕ) :
    (layout.units base).length = stream.unitCount := by
  rw [h.units_eq, List.length_append, List.length_append, length_gap, length_gap, samples,
    List.length_map, List.length_range, h.rateFactor]
  rfl

/-- A sample of a laid out stream is numbered as declared. -/
theorem LaysOut.callOrder_eq (h : LaysOut records stream layout) (base k : ℕ) :
    layout.callOrder base k = stream.orderFrom base k := by
  rw [callOrder, h.shift, h.rateFactor]
  rfl

/-- A sample of a laid out stream holds what is declared. -/
theorem LaysOut.shape_sample (h : LaysOut records stream layout) (order : ℕ) :
    (PlanUnit.sample layout.stream layout.decoder order).shape records = stream.shape := by
  simp only [PlanUnit.sample, PlanUnit.shape, StreamDecl.shape, h.record, h.format, h.encoding,
    h.quantization]

/-- A sample of a laid out stream stands behind its unused bits and the samples before it. -/
theorem LaysOut.holdsAt_sample (h : LaysOut records stream layout) (base : ℕ) {k : ℕ}
    (hk : k < stream.rateFactor) :
    HoldsAt (layout.units base)
      [.sample layout.stream layout.decoder (stream.orderFrom base k)]
      (gapUnits stream.leadingBits + k) (stream.leadingBits + k * stream.sampleBits) := by
  let piece : ℕ → List PlanUnit := fun k =>
    [.sample layout.stream layout.decoder (layout.callOrder base k)]
  have hbits : ∀ k, unitBits (piece k) = stream.sampleBits := fun _ => h.bitWidth
  have hlength : ∀ k, (piece k).length = 1 := fun _ => List.length_singleton
  have hsample := HoldsAt.flatMap_range hlength hbits hk
  have hunits := hsample.of_append (PlanUnit.gap stream.leadingBits)
    (PlanUnit.gap stream.trailingBits)
  rw [length_gap, unitBits_gap, Nat.mul_one, ← List.map_eq_flatMap] at hunits
  rwa [h.units_eq, samples, h.rateFactor, ← h.callOrder_eq]

/-- Laid out streams have the declared numbers of samples. -/
theorem rateFactors_eq_of_laysOut {streams : List StreamDecl} {layouts : List StreamLayout}
    (h : List.Forall₂ (LaysOut records) streams layouts) :
    layouts.map (·.rateFactor) = streams.map (·.rateFactor) := by
  induction h with
  | nil => rfl
  | cons hstream _ ih => rw [List.map_cons, List.map_cons, hstream.rateFactor, ih]

end StreamLayout

namespace LumpLayout

variable {capacity : ℕ} {records : List StreamRecord} {lump : LumpDecl} {layout : LumpLayout}

/-- Each stream of a repetition stands behind the streams before it and is numbered from where they
end. -/
theorem holdsAt_stream {streams : List StreamDecl} {layouts : List StreamLayout}
    (h : List.Forall₂ (StreamLayout.LaysOut records) streams layouts) {place : ℕ}
    {stream : StreamDecl} (hstream : streams[place]? = some stream) (base : ℕ) :
    ∃ layout, StreamLayout.LaysOut records stream layout ∧
      HoldsAt (repetitionUnits base layouts)
        (layout.units (base + ((streams.take place).map (·.rateFactor)).sum))
        ((streams.take place).map (·.unitCount)).sum
        ((streams.take place).map (·.packedBits)).sum := by
  induction h generalizing place base with
  | nil => cases hstream
  | @cons first layout streams layouts hfirst _ ih =>
    cases place with
    | zero =>
      obtain rfl : first = stream := by simpa using hstream
      exact ⟨layout, hfirst, [], repetitionUnits (base + layout.rateFactor) layouts, rfl, rfl, rfl⟩
    | succ place =>
      rw [List.getElem?_cons_succ] at hstream
      rcases ih hstream (base + layout.rateFactor) with ⟨other, hother, hheld⟩
      have hunits := hheld.of_append (layout.units base) []
      rw [List.append_nil, hfirst.length_units, hfirst.unitBits_units] at hunits
      refine ⟨other, hother, ?_⟩
      simp only [List.take_succ_cons, List.map_cons, List.sum_cons, ← Nat.add_assoc]
        at hunits ⊢
      rw [repetitionUnits, hfirst.rateFactor]
      rwa [hfirst.rateFactor] at hunits

/-- A laid out lump has the declared units in each repetition. -/
theorem LaysOut.length_repetition (h : LaysOut capacity records lump layout) (base : ℕ) :
    (repetitionUnits base layout.streams).length = lump.unitCount :=
  Additive.repetitionUnits ⟨rfl, fun _ _ => List.length_append⟩ (·.length_units) h.streams base

/-- Samples of one repetition of a laid out lump are those of the declaration. -/
theorem LaysOut.samplesPerRepetition_eq (h : LaysOut capacity records lump layout) :
    samplesPerRepetition layout.streams = lump.samples := by
  rw [samplesPerRepetition, StreamLayout.rateFactors_eq_of_laysOut h.streams]
  rfl

/-- A repetition of a laid out lump is numbered from where the declaration says. -/
theorem LaysOut.base_add_samplesBefore (h : LaysOut capacity records lump layout) (place r : ℕ) :
    layout.base r + lump.samplesBefore place = lump.windowStart capacity place r := by
  rw [base, h.shift, h.samplesPerRepetition_eq, h.repetitions, LumpDecl.windowStart,
    LumpDecl.repetitions]
  cases lump.shift <;> rfl

/-- A sample of a laid out lump stands behind the repetitions and streams before it. -/
theorem LaysOut.holdsAt_sample (h : LaysOut capacity records lump layout) {r place k : ℕ}
    {stream : StreamDecl} (hr : r < lump.repetitions capacity)
    (hstream : lump.streams[place]? = some stream) (hk : k < stream.rateFactor) :
    ∃ layoutOf, StreamLayout.LaysOut records stream layoutOf ∧
      HoldsAt layout.units
        [.sample layoutOf.stream layoutOf.decoder
          (stream.orderFrom (lump.windowStart capacity place r) k)]
        (r * lump.unitCount + (lump.unitsBefore place + (gapUnits stream.leadingBits + k)))
        (r * lump.bits +
          (lump.streamOffset place + (stream.leadingBits + k * stream.sampleBits))) := by
  rcases holdsAt_stream h.streams hstream (layout.base r) with ⟨layoutOf, hlayout, hheld⟩
  have hsample := hheld.trans (hlayout.holdsAt_sample _ hk)
  have hbase : layout.base r + ((lump.streams.take place).map (·.rateFactor)).sum =
      lump.windowStart capacity place r := h.base_add_samplesBefore place r
  rw [hbase] at hsample
  have hrepetition := HoldsAt.flatMap_range (fun r => h.length_repetition (layout.base r))
    (fun r => h.unitBits_repetition (layout.base r)) (by rwa [h.repetitions] :
      r < layout.repetitions)
  exact ⟨layoutOf, hlayout, hrepetition.trans hsample⟩

end LumpLayout

/-- Laid out lumps that are not repeated have no units. -/
theorem flatMap_units_of_not_repeated {capacity : ℕ} {records : List StreamRecord}
    {lumps : List LumpDecl} {layouts : List LumpLayout}
    (h : List.Forall₂ (LumpLayout.LaysOut capacity records) lumps layouts)
    (hnone : ∀ lump ∈ lumps, lump.repetitions capacity = 0) :
    layouts.flatMap (·.units) = [] := by
  induction h with
  | nil => rfl
  | cons hlump _ ih =>
    rcases List.forall_mem_cons.mp hnone with ⟨hzero, hrest⟩
    rw [LumpDecl.repetitions] at hzero
    rw [List.flatMap_cons, ih hrest, LumpLayout.units, hlump.repetitions, hzero]
    rfl

/-- The units of all lumps are those of the one that is repeated. -/
theorem exists_units_eq_of_repeated {capacity : ℕ} {records : List StreamRecord}
    {lumps : List LumpDecl} {layouts : List LumpLayout}
    (h : List.Forall₂ (LumpLayout.LaysOut capacity records) lumps layouts)
    (honce : lumps.Pairwise fun first second =>
      first.repetitions capacity = 0 ∨ second.repetitions capacity = 0)
    {lump : LumpDecl} (hlump : lump ∈ lumps) (hrepeated : lump.repetitions capacity ≠ 0) :
    ∃ layout, LumpLayout.LaysOut capacity records lump layout ∧
      layouts.flatMap (·.units) = layout.units := by
  induction h with
  | nil => cases hlump
  | @cons first layout lumps layouts hfirst hlumps ih =>
    rcases List.pairwise_cons.mp honce with ⟨hothers, hrest⟩
    rw [List.flatMap_cons]
    -- Either the first lump is the one, or it is not repeated and has no units.
    rcases List.mem_cons.mp hlump with rfl | hmem
    · have hnone : ∀ other ∈ lumps, other.repetitions capacity = 0 :=
        fun other hother => (hothers other hother).resolve_left hrepeated
      exact ⟨layout, hfirst, by rw [flatMap_units_of_not_repeated hlumps hnone, List.append_nil]⟩
    · have hzero : first.repetitions capacity = 0 := (hothers lump hmem).resolve_right hrepeated
      have hnone : [layout].flatMap (·.units) = [] :=
        flatMap_units_of_not_repeated (.cons hfirst .nil) (by simpa using hzero)
      rw [List.flatMap_singleton] at hnone
      rcases ih hrest hmem with ⟨other, hother, hunits⟩
      exact ⟨other, hother, by rw [hnone, List.nil_append, hunits]⟩

namespace ChunkPlan

variable {descriptor : Descriptor} {system : System} {chunk : ChunkDecl} {plan : ChunkPlan}
  {layouts : List LumpLayout} {lump : LumpDecl} {stream : StreamDecl} {place : ℕ}

/-- A declared sample is found at its index, behind the declared bits, with its number. -/
theorem BuiltFrom.sample_at (h : BuiltFrom descriptor system chunk plan layouts)
    (hlump : lump ∈ chunk.lumps) (hstream : lump.streams[place]? = some stream) {r k : ℕ}
    (hr : r < lump.repetitions chunk.capacity) (hk : k < stream.rateFactor) :
    ∃ layout, StreamLayout.LaysOut plan.streams stream layout ∧
      plan.units[chunk.sampleIndex lump place stream r k]? =
        some (.sample layout.stream layout.decoder
          (stream.orderFrom (lump.windowStart chunk.capacity place r) k)) ∧
      plan.startOf (chunk.sampleIndex lump place stream r k) =
        chunk.headBits + r * lump.bits + lump.streamOffset place + stream.leadingBits +
          k * stream.sampleBits := by
  have hlumps := h.lumps
  have hused := h.used_le
  rw [h.consumed_eq, h.capacity_eq] at hused
  rw [h.capacity_eq] at hlumps
  have honce := pairwise_repetitions (bits_pos_of_laysOut hlumps) hused
  obtain ⟨lumpLayout, hlaid, hunits⟩ :=
    exists_units_eq_of_repeated hlumps honce hlump (by omega)
  obtain ⟨layout, hlayout, hheld⟩ := hlaid.holdsAt_sample hr hstream hk
  have hplan := hheld.of_append (PlanUnit.gap chunk.headBits) (PlanUnit.gap chunk.tailBits)
  rw [← hunits, ← h.units_eq, length_gap, unitBits_gap] at hplan
  simp only [← Nat.add_assoc] at hplan
  exact ⟨layout, hlayout, hplan.getElem?_eq⟩

/-- A numbered sample is a unit with its number at its index. -/
theorem mem_numberedSamples {units : List PlanUnit} {order index : ℕ} :
    (order, index) ∈ numberedSamples units ↔
      ∃ unit, units[index]? = some unit ∧ unit.callOrder? = some order := by
  simp only [numberedSamples, List.mem_filterMap, Option.map_eq_some_iff, Prod.mk.injEq,
    Prod.exists, List.mem_zipIdx_iff_getElem?]
  constructor
  · rintro ⟨unit, place, hunit, number, hnumber, rfl, rfl⟩
    exact ⟨unit, hunit, hnumber⟩
  · rintro ⟨unit, hunit, hnumber⟩
    exact ⟨unit, index, hunit, order, hnumber, rfl, rfl⟩

/-- Numbered samples stand in the order of their indices. -/
theorem pairwise_numberedSamples (units : List PlanUnit) :
    (numberedSamples units).Pairwise fun first second => first.2 < second.2 := by
  have hindices : units.zipIdx.Pairwise fun first second => first.2 < second.2 := by
    rw [← List.pairwise_map (f := Prod.snd) (R := (· < ·)), List.zipIdx_map_snd]
    exact List.pairwise_lt_range'
  refine List.pairwise_filterMap.mpr (hindices.imp fun hlt first hfirst second hsecond => ?_)
  rcases Option.map_eq_some_iff.mp hfirst with ⟨_, -, rfl⟩
  rcases Option.map_eq_some_iff.mp hsecond with ⟨_, -, rfl⟩
  exact hlt

/-- Indices in the order of the call orders are those of the samples. -/
theorem dispatchOrder_perm (plan : ChunkPlan) : plan.dispatchOrder.Perm plan.sampleIndices := by
  have hnumbered : ((numberedSamples plan.units).map Prod.snd).Nodup :=
    List.pairwise_map.mpr ((pairwise_numberedSamples plan.units).imp Nat.ne_of_lt)
  have hsorted : plan.dispatchOrder.Perm ((numberedSamples plan.units).map Prod.snd) :=
    (List.mergeSort_perm _ _).map Prod.snd
  refine hsorted.trans ((List.perm_ext_iff_of_nodup hnumbered
    (List.nodup_range.filter _)).mpr fun index => ?_)
  rw [List.mem_filter, List.mem_range]
  constructor
  · intro hindex
    rcases List.mem_map.mp hindex with ⟨⟨order, place⟩, hmem, rfl⟩
    rcases mem_numberedSamples.mp hmem with ⟨⟨bits, kind⟩, hunit, horder⟩
    refine ⟨(List.getElem?_eq_some_iff.mp hunit).1, ?_⟩
    rw [hunit]
    cases kind with
    | padding => cases horder
    | sample => rfl
  · rintro ⟨hbound, hsample⟩
    have hunit := List.getElem?_eq_getElem hbound
    rw [hunit] at hsample
    rcases hkind : plan.units[index] with ⟨bits, kind⟩
    rw [hkind] at hunit hsample
    cases kind with
    | padding => cases hsample
    | sample stream decoder order =>
      exact List.mem_map.mpr ⟨(order, index), mem_numberedSamples.mpr ⟨_, hunit, rfl⟩, rfl⟩

/-- The samples of a declared stream with their numbers, in the order of the numbers. -/
def orderedSamples (chunk : ChunkDecl) (lump : LumpDecl) (place : ℕ) (stream : StreamDecl) :
    List (ℕ × ℕ) :=
  (lump.shift.arrange (List.range (lump.repetitions chunk.capacity))).flatMap fun r =>
    (stream.shift.arrange (List.range stream.rateFactor)).map fun k =>
      (stream.orderFrom (lump.windowStart chunk.capacity place r) k,
        chunk.sampleIndex lump place stream r k)

/-- A sample of a declared stream with its number. -/
theorem mem_orderedSamples {sample : ℕ × ℕ} :
    sample ∈ orderedSamples chunk lump place stream ↔
      ∃ r < lump.repetitions chunk.capacity, ∃ k < stream.rateFactor,
        (stream.orderFrom (lump.windowStart chunk.capacity place r) k,
          chunk.sampleIndex lump place stream r k) = sample := by
  simp [orderedSamples]

/-- The indices of the ordered samples: whole repetitions in the direction of the lump, each in the
direction of the stream. -/
theorem map_snd_orderedSamples :
    (orderedSamples chunk lump place stream).map Prod.snd =
      (lump.shift.arrange (chunk.sampleIndices lump place stream)).flatMap
        stream.shift.arrange := by
  rw [orderedSamples, List.map_flatMap, ChunkDecl.sampleIndices, arrange_map, List.flatMap_map]
  refine List.flatMap_congr fun r _ => ?_
  rw [arrange_map, List.map_map]
  rfl

/-- The numbers of a declared stream rise from sample to sample and from repetition to
repetition. -/
theorem pairwise_orderedSamples (hstream : lump.streams[place]? = some stream) :
    (orderedSamples chunk lump place stream).Pairwise fun first second =>
      first.1 < second.1 := by
  refine List.pairwise_flatMap.mpr ⟨fun r _ => ?_, ?_⟩
  · exact List.pairwise_map.mpr (pairwise_orderFrom _)
  · refine (pairwise_windowStart lump chunk.capacity place).imp
      fun hwindows first hfirst second hsecond => ?_
    rcases List.mem_map.mp hfirst with ⟨i, hi, rfl⟩
    rcases List.mem_map.mp hsecond with ⟨j, hj, rfl⟩
    rw [mem_arrange, List.mem_range] at hi hj
    have hrate := rateFactor_le_samples hstream
    exact orderFrom_lt_orderFrom (by omega) hi hj

/-- Of all numbered samples of a built plan, those at the indices of a declared stream. -/
theorem BuiltFrom.orderedSamples_perm (h : BuiltFrom descriptor system chunk plan layouts)
    (hlump : lump ∈ chunk.lumps) (hstream : lump.streams[place]? = some stream) :
    (orderedSamples chunk lump place stream).Perm
      ((numberedSamples plan.units).filter fun sample =>
        sample.2 ∈ (chunk.sampleIndices lump place stream).flatten) := by
  have hordered : (orderedSamples chunk lump place stream).Nodup :=
    (pairwise_orderedSamples hstream).imp fun hlt heq => Nat.ne_of_lt hlt (congrArg Prod.fst heq)
  have hnumbered : (numberedSamples plan.units).Nodup :=
    (pairwise_numberedSamples plan.units).imp
      fun hlt heq => Nat.ne_of_lt hlt (congrArg Prod.snd heq)
  refine (List.perm_ext_iff_of_nodup hordered (hnumbered.filter _)).mpr fun sample => ?_
  rcases sample with ⟨order, index⟩
  rw [mem_orderedSamples, List.mem_filter, mem_numberedSamples]
  simp only [ChunkDecl.sampleIndices, decide_eq_true_eq, List.mem_flatten, List.mem_map,
    List.mem_range, exists_exists_and_eq_and, Prod.mk.injEq]
  constructor
  · rintro ⟨r, hr, k, hk, rfl, rfl⟩
    rcases h.sample_at hlump hstream hr hk with ⟨layout, -, hunit, -⟩
    exact ⟨⟨_, hunit, rfl⟩, r, hr, k, hk, rfl⟩
  · rintro ⟨⟨unit, hunit, horder⟩, r, hr, k, hk, rfl⟩
    rcases h.sample_at hlump hstream hr hk with ⟨layout, -, hsample, -⟩
    obtain rfl := Option.some_inj.mp (hunit.symm.trans hsample)
    exact ⟨r, hr, k, hk, Option.some_inj.mp horder, rfl⟩

/-- In a built plan every sample is handed on once, and every declared stream has its samples
handed on by whole repetitions: in the order of the bits when its lump is numbered upwards and the
other way round otherwise, and inside each repetition in the order of the bits when the stream is
numbered upwards and the other way round otherwise. The samples of a declared stream are the units
at its indices, which hold what is declared behind the bits that are declared before. -/
theorem build_emission_order (h : build descriptor system chunk = .ok plan) :
    plan.dispatchOrder.Perm plan.sampleIndices ∧
    ∀ lump ∈ chunk.lumps, ∀ place stream, lump.streams[place]? = some stream →
      (∀ r < chunk.capacity / lump.bits, ∀ k < stream.rateFactor,
        (plan.units[chunk.sampleIndex lump place stream r k]?).map (·.shape plan.streams) =
          some stream.shape ∧
        plan.startOf (chunk.sampleIndex lump place stream r k) =
          chunk.headBits + r * lump.bits + lump.streamOffset place + stream.leadingBits +
            k * (stream.format.components * stream.quantization)) ∧
      (plan.dispatchOrder.filter fun index =>
          index ∈ (chunk.sampleIndices lump place stream).flatten) =
        (lump.shift.arrange (chunk.sampleIndices lump place stream)).flatMap
          stream.shift.arrange := by
  rcases build_ok h with ⟨layouts, hbuilt⟩
  refine ⟨plan.dispatchOrder_perm, fun lump hlump place stream hstream => ⟨fun r hr k hk => ?_, ?_⟩⟩
  · rcases hbuilt.sample_at hlump hstream hr hk with ⟨layout, hlayout, hunit, hstart⟩
    refine ⟨?_, hstart⟩
    rw [hunit, Option.map_some, Option.some_inj]
    exact hlayout.shape_sample _
  · have hchosen := filter_mergeSort_eq (hbuilt.orderedSamples_perm hlump hstream)
      (pairwise_orderedSamples hstream)
    rw [← map_snd_orderedSamples, ← hchosen, dispatchOrder, List.filter_map]
    rfl

end ChunkPlan

/-- A chunk whose streams share a call order: a lump numbered downwards with two repetitions, the
first stream numbered upwards behind an unused bit, the second one downwards, and two unused bits
at the tail. -/
def sharedOrderChunk : ChunkDecl where
  sizeWord := 2
  padding := .tail
  lumps := [{
    shift := .right
    streams := [
      { id := "A", rateFactor := 2, packedBits := 5, alignment := .right, quantization := 2
        bands := ["L"] },
      { id := "B", rateFactor := 2, packedBits := 2, shift := .right, encoding := .sign
        quantization := 1, bands := ["L"] }] }]

/-- Streams that share a call order are handed on by whole repetitions, each in its own
direction. -/
theorem ChunkPlan.build_emission_order_of_sharedOrderChunk :
    ∃ plan, build packedDescriptor {} sharedOrderChunk = .ok plan ∧
      plan.units.filterMap (·.callOrder?) = [8, 9, 12, 11, 4, 5, 8, 7] ∧
      plan.dispatchOrder.Perm [1, 2, 3, 4, 6, 7, 8, 9] ∧
      plan.dispatchOrder.filter (· ∈ [1, 2, 6, 7]) = [6, 7, 1, 2] ∧
      plan.dispatchOrder.filter (· ∈ [3, 4, 8, 9]) = [9, 8, 4, 3] := by
  obtain ⟨plan, hplan, horders, hindices⟩ :
      ∃ plan, build packedDescriptor {} sharedOrderChunk = .ok plan ∧
        plan.units.filterMap (·.callOrder?) = [8, 9, 12, 11, 4, 5, 8, 7] ∧
        plan.sampleIndices = [1, 2, 3, 4, 6, 7, 8, 9] := ⟨_, rfl, by decide, by decide⟩
  rcases build_emission_order hplan with ⟨hperm, hstreams⟩
  have hlump := hstreams _ (List.mem_singleton_self _)
  exact ⟨plan, hplan, horders, hindices ▸ hperm, (hlump 0 _ rfl).2, (hlump 1 _ rfl).2⟩

end SampleDemux
