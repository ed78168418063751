import SampleDemux.Proofs.EmissionOrder

/-!
# The numbers of all samples of a chunk

At most one lump of a chunk is repeated, and the samples of a built plan are those of its
repetitions: all call orders of a plan, with the indices of their units, as one list that is made
of the declarations alone.
-/

namespace SampleDemux

namespace ChunkPlan

/-- The call orders of the samples among units, each with the unit's index, where the first unit
has a given index. -/
def numberedFrom (index : ℕ) (units : List PlanUnit) : List (ℕ × ℕ) :=
  (units.zipIdx index).filterMap fun (unit, index) =>
    unit.callOrder?.map fun order => (order, index)

/-- Units side by side are indexed one after the other. -/
theorem numberedFrom_append (index : ℕ) (front back : List PlanUnit) :
    numberedFrom index (front ++ back) =
      numberedFrom index front ++ numberedFrom (index + front.length) back := by
  rw [numberedFrom, List.zipIdx_append, List.filterMap_append]
  rfl

/-- Unused bits have no call order. -/
theorem numberedFrom_gap (index bits : ℕ) : numberedFrom index (PlanUnit.gap bits) = [] := by
  unfold PlanUnit.gap
  split <;> rfl

/-- Pieces of one length are indexed from multiples of it. -/
theorem numberedFrom_flatMap_range {size : ℕ} {piece : ℕ → List PlanUnit}
    (hpiece : ∀ r, (piece r).length = size) (index count : ℕ) :
    numberedFrom index ((List.range count).flatMap piece) =
      (List.range count).flatMap fun r => numberedFrom (index + r * size) (piece r) := by
  have hlength : Additive List.length := ⟨rfl, fun _ _ => List.length_append⟩
  induction count with
  | zero => rfl
  | succ count ih =>
    rw [List.range_succ, List.flatMap_append, numberedFrom_append, ih,
      hlength.flatMap_range hpiece, List.flatMap_append, List.flatMap_singleton,
      List.flatMap_singleton]

/-- The call order of the unit at an index, if it is a sample. -/
def callOrderAt? (plan : ChunkPlan) (index : ℕ) : Option ℕ :=
  (plan.units[index]?).bind (·.callOrder?)

/-- A sample with its call order is one of the numbered samples. -/
theorem callOrderAt?_eq_some_iff {plan : ChunkPlan} {index order : ℕ} :
    plan.callOrderAt? index = some order ↔ (order, index) ∈ numberedSamples plan.units := by
  rw [callOrderAt?, Option.bind_eq_some_iff, mem_numberedSamples]

end ChunkPlan

/-- The samples of a declared stream with their numbers and indices, from a number and an index
on. -/
def StreamDecl.numbered (stream : StreamDecl) (start index : ℕ) : List (ℕ × ℕ) :=
  (List.range stream.rateFactor).map fun k =>
    (stream.orderFrom start k, index + gapUnits stream.leadingBits + k)

/-- The samples of all repetitions of a declared lump with their numbers and indices. -/
def LumpDecl.numbered (lump : LumpDecl) (capacity index : ℕ) : List (ℕ × ℕ) :=
  (List.range (lump.repetitions capacity)).flatMap fun r =>
    (lump.streams.mapIdx fun place stream =>
      stream.numbered (lump.windowStart capacity place r)
        (index + r * lump.unitCount + lump.unitsBefore place)).flatten

/-- The samples of a laid out stream are numbered as declared. -/
theorem StreamLayout.LaysOut.numberedFrom_units {records : List StreamRecord} {stream : StreamDecl}
    {layout : StreamLayout} (h : LaysOut records stream layout) (base index : ℕ) :
    ChunkPlan.numberedFrom index (layout.units base) = stream.numbered base index := by
  have hlength (k : ℕ) : List.length
      [PlanUnit.sample layout.stream layout.decoder (layout.callOrder base k)] = 1 := rfl
  rw [h.units_eq, ChunkPlan.numberedFrom_append, ChunkPlan.numberedFrom_append,
    ChunkPlan.numberedFrom_gap, ChunkPlan.numberedFrom_gap, length_gap, List.nil_append,
    List.append_nil, samples, List.map_eq_flatMap, ChunkPlan.numberedFrom_flatMap_range hlength,
    h.rateFactor, StreamDecl.numbered, List.map_eq_flatMap]
  refine List.flatMap_congr fun k _ => ?_
  rw [Nat.mul_one, ← h.callOrder_eq]
  rfl

namespace LumpLayout

variable {capacity : ℕ} {records : List StreamRecord} {lump : LumpDecl} {layout : LumpLayout}

/-- Each stream of a repetition is numbered and indexed from where the one before it ends. -/
theorem numberedFrom_repetitionUnits {streams : List StreamDecl} {layouts : List StreamLayout}
    (h : List.Forall₂ (StreamLayout.LaysOut records) streams layouts) (base index : ℕ) :
    ChunkPlan.numberedFrom index (repetitionUnits base layouts) =
      (streams.mapIdx fun place stream =>
        stream.numbered (base + ((streams.take place).map (·.rateFactor)).sum)
          (index + ((streams.take place).map (·.unitCount)).sum)).flatten := by
  induction h generalizing base index with
  | nil => rfl
  | @cons stream layout streams layouts hstream _ ih =>
    rw [repetitionUnits, ChunkPlan.numberedFrom_append, hstream.numberedFrom_units,
      hstream.length_units, hstream.rateFactor, ih, List.mapIdx_cons, List.flatten_cons]
    simp only [List.take_zero, List.map_nil, List.take_succ_cons, List.map_cons,
      List.sum_nil, List.sum_cons, Nat.add_zero, Nat.add_assoc]

/-- The samples of a laid out lump are numbered as declared. -/
theorem LaysOut.numberedFrom_units (h : LaysOut capacity records lump layout) (index : ℕ) :
    ChunkPlan.numberedFrom index layout.units = lump.numbered capacity index := by
  rw [units, ChunkPlan.numberedFrom_flatMap_range
    (fun r => h.length_repetition (layout.base r)), h.repetitions]
  refine List.flatMap_congr fun r _ => ?_
  rw [numberedFrom_repetitionUnits h.streams]
  simp only [← h.base_add_samplesBefore]
  rfl

end LumpLayout

namespace ChunkPlan

variable {descriptor : Descriptor} {system : System} {chunk : ChunkDecl} {plan : ChunkPlan}
  {layouts : List LumpLayout} {lump : LumpDecl}

/-- The numbered samples of a built plan are those of its lumps, behind the unused bits at the
head. -/
theorem BuiltFrom.numberedSamples_lumps (h : BuiltFrom descriptor system chunk plan layouts) :
    numberedSamples plan.units =
      numberedFrom (gapUnits chunk.headBits) (layouts.flatMap (·.units)) := by
  change numberedFrom 0 plan.units = _
  rw [h.units_eq, numberedFrom_append, numberedFrom_append, numberedFrom_gap, numberedFrom_gap,
    List.nil_append, List.append_nil, length_gap, Nat.zero_add]

/-- The numbered samples of a built plan are those of the lump that is repeated. -/
theorem BuiltFrom.numberedSamples_eq (h : BuiltFrom descriptor system chunk plan layouts)
    (hlump : lump ∈ chunk.lumps) (hrepeated : 0 < lump.repetitions chunk.capacity) :
    numberedSamples plan.units = lump.numbered chunk.capacity (gapUnits chunk.headBits) := by
  have hlumps := h.lumps
  have hused := h.used_le
  rw [h.consumed_eq, h.capacity_eq] at hused
  rw [h.capacity_eq] at hlumps
  have honce := pairwise_repetitions (bits_pos_of_laysOut hlumps) hused
  obtain ⟨layout, hlaid, hunits⟩ :=
    exists_units_eq_of_repeated hlumps honce hlump (Nat.ne_of_gt hrepeated)
  rw [h.numberedSamples_lumps, hunits, hlaid.numberedFrom_units]

/-- A plan with a sample is built from a lump that is repeated. -/
theorem BuiltFrom.exists_repeated (h : BuiltFrom descriptor system chunk plan layouts)
    {sample : ℕ × ℕ} (hsample : sample ∈ numberedSamples plan.units) :
    ∃ lump ∈ chunk.lumps, 0 < lump.repetitions chunk.capacity := by
  by_contra! hnone
  have hlumps := h.lumps
  rw [h.capacity_eq] at hlumps
  have hunits := flatMap_units_of_not_repeated hlumps fun lump hlump => by
    have := hnone lump hlump
    omega
  rw [h.numberedSamples_lumps, hunits] at hsample
  cases hsample

end ChunkPlan

end SampleDemux
