import SampleDemux.Proofs.Numbering

/-!
# Windows of numbers

Each stream of each repetition of a lump has a window of numbers, and the windows stand side by
side: in the order in which repetitions and streams are numbered, each begins where the one before
it ends. A stream that is numbered upwards holds the first number of its window, a stream that is
numbered downwards the first one behind it, so numbers can meet at a border of two windows and
nowhere else.
-/

namespace SampleDemux

/-- Rows of one size: what stands in a row ends before a later row begins. -/
theorem row_end_le {row next size filled : ℕ} (hlt : row < next) (hfilled : filled ≤ size) :
    row * size + filled ≤ next * size := by
  have hrows : (row + 1) * size ≤ next * size := Nat.mul_le_mul_right _ hlt
  rw [Nat.succ_mul] at hrows
  omega

/-- What stands in a row touches what stands in a later one at the end of the one and the beginning
of the next alone. -/
theorem row_end_eq_iff {row next size filled behind : ℕ} (hlt : row < next)
    (hfilled : filled ≤ size) (hsize : 0 < size) :
    row * size + filled = next * size + behind ↔ next = row + 1 ∧ filled = size ∧ behind = 0 := by
  constructor
  · intro heq
    have hrows := row_end_le hlt (Nat.le_refl size)
    have hexact : (row + 1) * size = next * size := by
      rw [Nat.succ_mul]
      omega
    exact ⟨(Nat.eq_of_mul_eq_mul_right hsize hexact).symm, by omega, by omega⟩
  · rintro ⟨rfl, rfl, rfl⟩
    rw [Nat.succ_mul, Nat.add_zero]

namespace Direction

/-- Whether one number comes before another in a direction. -/
def Precedes : Direction → ℕ → ℕ → Prop
  | left, first, second => first < second
  | right, first, second => second < first

/-- Whether one number comes directly before another in a direction. -/
def Next : Direction → ℕ → ℕ → Prop
  | left, first, second => second = first + 1
  | right, first, second => first = second + 1

end Direction

namespace LumpDecl

/-- Place of a repetition in the order in which repetitions are numbered, up to a shift. -/
def rank (lump : LumpDecl) (capacity r : ℕ) : ℕ :=
  match lump.shift with
  | .left => r
  | .right => lump.repetitions capacity - r

/-- A sample of a declared lump: a repetition, a stream and one of the stream's samples. -/
structure Slot (lump : LumpDecl) (capacity : ℕ) where
  /-- The repetition, in the order of the bits. -/
  repetition : ℕ
  /-- The stream's place in the lump. -/
  place : ℕ
  /-- The stream. -/
  stream : StreamDecl
  /-- The sample's place among the stream's samples of the repetition, in the order of the bits. -/
  sample : ℕ
  /-- The lump is repeated so often. -/
  repetition_lt : repetition < lump.repetitions capacity
  /-- The stream stands at its place. -/
  stream_eq : lump.streams[place]? = some stream
  /-- The stream has so many samples. -/
  sample_lt : sample < stream.rateFactor

variable {lump : LumpDecl} {capacity : ℕ}

/-- A window begins behind the repetitions that are numbered before and the streams before it. -/
theorem windowStart_eq (lump : LumpDecl) (capacity place r : ℕ) :
    lump.windowStart capacity place r =
      lump.rank capacity r * lump.samples + lump.samplesBefore place := by
  unfold windowStart rank
  cases lump.shift <;> rfl

/-- Repetitions rank as their direction says. -/
theorem precedes_iff {r next : ℕ} (hr : r < lump.repetitions capacity)
    (hnext : next < lump.repetitions capacity) :
    lump.shift.Precedes r next ↔ lump.rank capacity r < lump.rank capacity next := by
  unfold rank
  cases lump.shift with
  | left => exact Iff.rfl
  | right => simp only [Direction.Precedes]; omega

/-- Neighbouring repetitions have neighbouring ranks. -/
theorem next_iff {r next : ℕ} (hr : r < lump.repetitions capacity)
    (hnext : next < lump.repetitions capacity) :
    lump.shift.Next r next ↔ lump.rank capacity next = lump.rank capacity r + 1 := by
  unfold rank
  cases lump.shift with
  | left => exact Iff.rfl
  | right => simp only [Direction.Next]; omega

/-- Samples up to a stream are those before it and its own. -/
theorem samplesBefore_succ {place : ℕ} {stream : StreamDecl}
    (hstream : lump.streams[place]? = some stream) :
    lump.samplesBefore (place + 1) = lump.samplesBefore place + stream.rateFactor :=
  sum_map_take_succ hstream

/-- All samples of a repetition stand before its end. -/
theorem samplesBefore_length (lump : LumpDecl) :
    lump.samplesBefore lump.streams.length = lump.samples := by
  rw [samplesBefore, List.take_length, samples]

/-- With a sample in every stream, samples before a stream are more than before an earlier one. -/
theorem samplesBefore_lt (hpos : ∀ stream ∈ lump.streams, 0 < stream.rateFactor) {place next : ℕ}
    (hlt : place < next) (hnext : next ≤ lump.streams.length) :
    lump.samplesBefore place < lump.samplesBefore next := by
  have hplace : place < lump.streams.length := by omega
  have hstream := List.getElem?_eq_getElem hplace
  have hrate := hpos _ (List.getElem_mem hplace)
  have hgrows : lump.samplesBefore (place + 1) ≤ lump.samplesBefore next := sum_map_take_le _ hlt
  rw [samplesBefore_succ hstream] at hgrows
  omega

/-- With a sample in every stream, a repetition has a sample. -/
theorem samples_pos (hpos : ∀ stream ∈ lump.streams, 0 < stream.rateFactor) {place : ℕ}
    (hplace : place < lump.streams.length) : 0 < lump.samples := by
  have hbefore := samplesBefore_lt hpos hplace le_rfl
  rw [samplesBefore_length] at hbefore
  omega

/-- With a sample in every stream, a stream is found by the samples before it. -/
theorem samplesBefore_eq_iff (hpos : ∀ stream ∈ lump.streams, 0 < stream.rateFactor)
    {place next : ℕ} (hplace : place ≤ lump.streams.length) (hnext : next ≤ lump.streams.length) :
    lump.samplesBefore place = lump.samplesBefore next ↔ place = next := by
  refine ⟨fun heq => ?_, fun heq => heq ▸ rfl⟩
  rcases Nat.lt_trichotomy place next with hlt | hsame | hgt
  · have := samplesBefore_lt hpos hlt hnext
    omega
  · exact hsame
  · have := samplesBefore_lt hpos hgt hplace
    omega

namespace Slot

/-- First number of the window of a sample's stream in its repetition. -/
def windowStart (slot : lump.Slot capacity) : ℕ :=
  lump.windowStart capacity slot.place slot.repetition

/-- One past the last number of that window. -/
def windowEnd (slot : lump.Slot capacity) : ℕ := slot.windowStart + slot.stream.rateFactor

/-- The number of a sample. -/
def number (slot : lump.Slot capacity) : ℕ := slot.stream.orderFrom slot.windowStart slot.sample

/-- Whether a sample is the first one, in the order of the bits, of a stream that is numbered in a
direction. -/
def Leads (slot : lump.Slot capacity) (direction : Direction) : Prop :=
  slot.stream.shift = direction ∧ slot.sample = 0

/-- Whether the stream of one sample is numbered before that of another: in a repetition that is
numbered before, or at an earlier place of the same repetition. -/
def NumberedBefore (first second : lump.Slot capacity) : Prop :=
  lump.shift.Precedes first.repetition second.repetition ∨
    first.repetition = second.repetition ∧ first.place < second.place

/-- Whether the stream of one sample is numbered directly before that of another: it is the stream
before it in the same repetition, or the last stream of a repetition before the first stream of the
repetition that is numbered next. -/
def NumberedNext (first second : lump.Slot capacity) : Prop :=
  first.repetition = second.repetition ∧ second.place = first.place + 1 ∨
    lump.shift.Next first.repetition second.repetition ∧
      first.place + 1 = lump.streams.length ∧ second.place = 0

/-- Whether two samples meet at the border of two windows: the first sample of a stream that is
numbered downwards, and the first sample of a stream that is numbered upwards directly after it. -/
def Meets (first second : lump.Slot capacity) : Prop :=
  first.NumberedNext second ∧ first.Leads .right ∧ second.Leads .left

variable {first second : lump.Slot capacity}

/-- A sample's stream is one of the lump's. -/
theorem place_lt (slot : lump.Slot capacity) : slot.place < lump.streams.length :=
  (List.getElem?_eq_some_iff.mp slot.stream_eq).1

/-- A sample is found by its repetition, its stream's place and its place in the stream. -/
theorem eq_of_places (hrepetition : first.repetition = second.repetition)
    (hplace : first.place = second.place) (hsample : first.sample = second.sample) :
    first = second := by
  cases first with
  | mk repetition place stream sample hr hstream hk =>
    cases second with
    | mk _ _ other _ _ hother _ =>
      cases hrepetition
      cases hplace
      cases hsample
      cases Option.some_inj.mp (hstream.symm.trans hother)
      rfl

/-- Two streams of the repetitions are the same one, or one is numbered before the other. -/
theorem numberedBefore_cases (first second : lump.Slot capacity) :
    (first.repetition = second.repetition ∧ first.place = second.place) ∨
      first.NumberedBefore second ∨ second.NumberedBefore first := by
  unfold NumberedBefore
  cases lump.shift with
  | left => simp only [Direction.Precedes]; omega
  | right => simp only [Direction.Precedes]; omega

/-- What is numbered directly before is numbered before. -/
theorem NumberedNext.numberedBefore (h : first.NumberedNext second) :
    first.NumberedBefore second := by
  rcases h with ⟨hrepetition, hplace⟩ | ⟨hrepetition, -, -⟩
  · exact .inr ⟨hrepetition, by omega⟩
  · refine .inl ?_
    cases hshift : lump.shift with
    | left =>
      rw [hshift] at hrepetition
      simp only [Direction.Next, Direction.Precedes] at *
      omega
    | right =>
      rw [hshift] at hrepetition
      simp only [Direction.Next, Direction.Precedes] at *
      omega

/-- A window ends behind the streams of its repetition up to its own. -/
theorem windowEnd_eq (slot : lump.Slot capacity) :
    slot.windowEnd = lump.rank capacity slot.repetition * lump.samples +
      lump.samplesBefore (slot.place + 1) := by
  rw [windowEnd, windowStart, windowStart_eq, samplesBefore_succ slot.stream_eq, Nat.add_assoc]

/-- A window ends before every window that is numbered behind it begins. -/
theorem NumberedBefore.windowEnd_le (h : first.NumberedBefore second) :
    first.windowEnd ≤ second.windowStart := by
  rw [windowEnd_eq, windowStart, windowStart_eq]
  rcases h with hrepetition | ⟨hrepetition, hplace⟩
  · have hrank := (precedes_iff first.repetition_lt second.repetition_lt).mp hrepetition
    have hrow : lump.samplesBefore (first.place + 1) ≤ lump.samples := sum_map_take_le_sum _ _
    exact (row_end_le hrank hrow).trans (Nat.le_add_right _ _)
  · have hrow : lump.samplesBefore (first.place + 1) ≤ lump.samplesBefore second.place :=
      sum_map_take_le _ hplace
    rw [hrepetition]
    omega

/-- With a sample in every stream, windows touch if and only if they are numbered one directly
after the other. -/
theorem NumberedBefore.windowEnd_eq_iff (h : first.NumberedBefore second)
    (hpos : ∀ stream ∈ lump.streams, 0 < stream.rateFactor) :
    first.windowEnd = second.windowStart ↔ first.NumberedNext second := by
  have hfirst := first.place_lt
  have hsecond := second.place_lt
  have hlast : lump.samplesBefore (first.place + 1) = lump.samples ↔
      first.place + 1 = lump.streams.length := by
    rw [← samplesBefore_length, samplesBefore_eq_iff hpos (by omega) le_rfl]
  have hzero : lump.samplesBefore second.place = 0 ↔ second.place = 0 :=
    samplesBefore_eq_iff hpos (by omega) (Nat.zero_le _)
  have hnext : lump.samplesBefore (first.place + 1) = lump.samplesBefore second.place ↔
      first.place + 1 = second.place := samplesBefore_eq_iff hpos (by omega) (by omega)
  rw [windowEnd_eq, windowStart, windowStart_eq, NumberedNext,
    next_iff first.repetition_lt second.repetition_lt]
  rcases h with hrepetition | ⟨hrepetition, hplace⟩
  · have hrank := (precedes_iff first.repetition_lt second.repetition_lt).mp hrepetition
    have hrow : lump.samplesBefore (first.place + 1) ≤ lump.samples := sum_map_take_le_sum _ _
    have hapart : first.repetition ≠ second.repetition := by
      intro hsame
      rw [hsame] at hrank
      omega
    rw [row_end_eq_iff hrank hrow (samples_pos hpos hfirst), hlast, hzero,
      or_iff_right fun hsame => hapart hsame.1]
  · have hranks : ¬ lump.rank capacity second.repetition =
        lump.rank capacity second.repetition + 1 := by omega
    rw [hrepetition, Nat.add_left_cancel_iff, hnext, or_iff_left fun hborder => hranks hborder.1,
      and_iff_right rfl]
    exact eq_comm

/-- A window that is numbered before another begins before it. -/
theorem NumberedBefore.windowStart_lt (h : first.NumberedBefore second) :
    first.windowStart < second.windowStart := by
  have hend := h.windowEnd_le
  have hsample := first.sample_lt
  unfold windowEnd at hend
  omega

/-- A number lies in its window, its end included. -/
theorem number_bounds (slot : lump.Slot capacity) :
    slot.windowStart ≤ slot.number ∧ slot.number ≤ slot.windowEnd := by
  have hsample := slot.sample_lt
  unfold number windowEnd StreamDecl.orderFrom
  cases slot.stream.shift with
  | left => simp only; omega
  | right => simp only; omega

/-- The first number of a window is that of the first sample of a stream numbered upwards. -/
theorem number_eq_windowStart_iff (slot : lump.Slot capacity) :
    slot.number = slot.windowStart ↔ slot.Leads .left := by
  have hsample := slot.sample_lt
  unfold number Leads StreamDecl.orderFrom
  cases slot.stream.shift with
  | left => simp
  | right => simp only [reduceCtorEq, false_and, iff_false]; omega

/-- The number behind a window is that of the first sample of a stream numbered downwards. -/
theorem number_eq_windowEnd_iff (slot : lump.Slot capacity) :
    slot.number = slot.windowEnd ↔ slot.Leads .right := by
  have hsample := slot.sample_lt
  unfold number windowEnd Leads StreamDecl.orderFrom
  cases slot.stream.shift with
  | left => simp only [reduceCtorEq, false_and, iff_false]; omega
  | right => simp only [true_and]; omega

/-- Numbers of a stream are at most those of a stream that is numbered behind it. -/
theorem NumberedBefore.number_le (h : first.NumberedBefore second) :
    first.number ≤ second.number :=
  (first.number_bounds.2.trans h.windowEnd_le).trans second.number_bounds.1

/-- Numbers of two streams are equal where the samples meet. -/
theorem NumberedBefore.number_eq_iff (h : first.NumberedBefore second)
    (hpos : ∀ stream ∈ lump.streams, 0 < stream.rateFactor) :
    first.number = second.number ↔ first.Meets second := by
  have hends := h.windowEnd_le
  have hfirst := first.number_bounds
  have hsecond := second.number_bounds
  rw [Meets, ← h.windowEnd_eq_iff hpos, ← first.number_eq_windowEnd_iff,
    ← second.number_eq_windowStart_iff]
  omega

/-- Two samples of a lump have the same number if and only if they meet. -/
theorem number_eq_iff (hpos : ∀ stream ∈ lump.streams, 0 < stream.rateFactor)
    (hne : first ≠ second) :
    first.number = second.number ↔ first.Meets second ∨ second.Meets first := by
  have hasymm (a b : lump.Slot capacity) (h : a.NumberedBefore b) : ¬ b.Meets a := by
    intro hmeets
    have hstart := h.windowStart_lt
    have hback := hmeets.1.numberedBefore.windowStart_lt
    omega
  rcases numberedBefore_cases first second with ⟨hrepetition, hplace⟩ | hbefore | hbehind
  · have hstream : first.stream = second.stream :=
      Option.some_inj.mp (first.stream_eq.symm.trans (hplace ▸ second.stream_eq))
    have hstart : first.windowStart = second.windowStart := by
      rw [windowStart, windowStart, hrepetition, hplace]
    have hsample : first.sample ≠ second.sample :=
      fun hsample => hne (eq_of_places hrepetition hplace hsample)
    have hapart : first.number ≠ second.number := by
      have hfirst := first.sample_lt
      have hsecond := second.sample_lt
      rw [hstream] at hfirst
      unfold number StreamDecl.orderFrom
      rw [hstream, hstart]
      cases second.stream.shift with
      | left => simp only; omega
      | right => simp only; omega
    refine iff_of_false hapart ?_
    rintro (hmeets | hmeets) <;> have hlt := hmeets.1.numberedBefore.windowStart_lt <;> omega
  · rw [hbefore.number_eq_iff hpos, or_iff_left (hasymm _ _ hbefore)]
  · rw [eq_comm, hbehind.number_eq_iff hpos, or_iff_right (hasymm _ _ hbehind)]

end Slot

end LumpDecl

/-- Index of a sample of a declared lump among the units of its chunk. -/
def ChunkDecl.slotIndex (chunk : ChunkDecl) {lump : LumpDecl} (slot : lump.Slot chunk.capacity) :
    ℕ :=
  chunk.sampleIndex lump slot.place slot.stream slot.repetition slot.sample

section Indices

variable {chunk : ChunkDecl} {lump : LumpDecl} {first second : lump.Slot chunk.capacity}

/-- A sample of an earlier repetition, or of an earlier stream of a repetition, has the smaller
index. -/
theorem slotIndex_lt (h : first.repetition < second.repetition ∨
    first.repetition = second.repetition ∧ first.place < second.place) :
    chunk.slotIndex first < chunk.slotIndex second := by
  have hsample := first.sample_lt
  have hunits : lump.unitsBefore (first.place + 1) =
      lump.unitsBefore first.place + first.stream.unitCount := sum_map_take_succ first.stream_eq
  have hcount : gapUnits first.stream.leadingBits + first.stream.rateFactor ≤
      first.stream.unitCount := Nat.le_add_right _ _
  unfold ChunkDecl.slotIndex ChunkDecl.sampleIndex
  rcases h with hrepetition | ⟨hrepetition, hplace⟩
  · have hrow : lump.unitsBefore (first.place + 1) ≤ lump.unitCount := sum_map_take_le_sum _ _
    have hrows := row_end_le hrepetition hrow
    omega
  · have hrow : lump.unitsBefore (first.place + 1) ≤ lump.unitsBefore second.place :=
      sum_map_take_le _ hplace
    rw [hrepetition]
    omega

/-- Different samples have different indices. -/
theorem slotIndex_injective (h : chunk.slotIndex first = chunk.slotIndex second) :
    first = second := by
  have hordered : ¬ (first.repetition < second.repetition ∨
      first.repetition = second.repetition ∧ first.place < second.place) :=
    fun hlt => Nat.ne_of_lt (slotIndex_lt hlt) h
  have hreversed : ¬ (second.repetition < first.repetition ∨
      second.repetition = first.repetition ∧ second.place < first.place) :=
    fun hlt => Nat.ne_of_gt (slotIndex_lt hlt) h
  have hrepetition : first.repetition = second.repetition := by omega
  have hplace : first.place = second.place := by omega
  have hstream : first.stream = second.stream :=
    Option.some_inj.mp (first.stream_eq.symm.trans (hplace ▸ second.stream_eq))
  refine LumpDecl.Slot.eq_of_places hrepetition hplace ?_
  unfold ChunkDecl.slotIndex ChunkDecl.sampleIndex at h
  rw [hrepetition, hplace, hstream] at h
  omega

end Indices

namespace ChunkPlan

/-- Every declared sample is found at its index: the unit there holds what is declared, behind the
bits that are declared before. -/
def HoldsSamplesOf (plan : ChunkPlan) (chunk : ChunkDecl) : Prop :=
  ∀ lump ∈ chunk.lumps, ∀ slot : lump.Slot chunk.capacity,
    (plan.units[chunk.slotIndex slot]?).map (·.shape plan.streams) = some slot.stream.shape ∧
    plan.startOf (chunk.slotIndex slot) =
      chunk.headBits + slot.repetition * lump.bits + lump.streamOffset slot.place +
        slot.stream.leadingBits +
        slot.sample * (slot.stream.format.components * slot.stream.quantization)

variable {descriptor : Descriptor} {system : System} {chunk : ChunkDecl} {plan : ChunkPlan}
  {layouts : List LumpLayout} {lump : LumpDecl}

/-- Every declared sample of a built plan is found at its index. -/
theorem BuiltFrom.holdsSamplesOf (h : BuiltFrom descriptor system chunk plan layouts) :
    plan.HoldsSamplesOf chunk := by
  intro lump hlump slot
  rcases h.sample_at hlump slot.stream_eq slot.repetition_lt slot.sample_lt with
    ⟨layout, hlayout, hunit, hstart⟩
  refine ⟨?_, hstart⟩
  rw [ChunkDecl.slotIndex, hunit, Option.map_some, Option.some_inj]
  exact hlayout.shape_sample _

/-- The call order of a declared sample of a built plan is its number. -/
theorem BuiltFrom.callOrderAt?_slotIndex (h : BuiltFrom descriptor system chunk plan layouts)
    (hlump : lump ∈ chunk.lumps) (slot : lump.Slot chunk.capacity) :
    plan.callOrderAt? (chunk.slotIndex slot) = some slot.number := by
  rcases h.sample_at hlump slot.stream_eq slot.repetition_lt slot.sample_lt with ⟨_, -, hunit, -⟩
  rw [callOrderAt?, ChunkDecl.slotIndex, hunit]
  rfl

/-- Every sample of a built plan is a declared one of the lump that is repeated. -/
theorem BuiltFrom.exists_slot (h : BuiltFrom descriptor system chunk plan layouts)
    (hlump : lump ∈ chunk.lumps) (hrepeated : 0 < lump.repetitions chunk.capacity)
    {index order : ℕ} (hindex : plan.callOrderAt? index = some order) :
    ∃ slot : lump.Slot chunk.capacity, chunk.slotIndex slot = index ∧ slot.number = order := by
  rw [callOrderAt?_eq_some_iff, h.numberedSamples_eq hlump hrepeated, LumpDecl.numbered,
    List.mem_flatMap] at hindex
  rcases hindex with ⟨r, hr, hindex⟩
  rcases mem_flatten_mapIdx.mp hindex with ⟨place, stream, hstream, hindex⟩
  rcases List.mem_map.mp hindex with ⟨k, hk, hsample⟩
  rw [Prod.mk.injEq] at hsample
  exact ⟨⟨r, place, stream, k, List.mem_range.mp hr, hstream, List.mem_range.mp hk⟩,
    hsample.2, hsample.1⟩

/-- Every declared stream of a built plan has a sample. -/
theorem BuiltFrom.rateFactor_pos (h : BuiltFrom descriptor system chunk plan layouts)
    (hlump : lump ∈ chunk.lumps) : ∀ stream ∈ lump.streams, 0 < stream.rateFactor := by
  have hstreams (declared : LumpDecl) (layout : LumpLayout)
      (hlaid : LumpLayout.LaysOut plan.capacityBits plan.streams declared layout) :
      ∀ stream ∈ declared.streams, 0 < stream.rateFactor :=
    forall_mem_of_forall₂ hlaid.streams.flip fun _ _ hstream => hstream.rateFactor_pos
  exact forall_mem_of_forall₂ h.lumps.flip (fun layout declared => hstreams declared layout) lump
    hlump

end ChunkPlan

end SampleDemux
