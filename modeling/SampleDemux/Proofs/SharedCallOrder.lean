import SampleDemux.Proofs.Windows

/-!
# Where call orders are shared

The windows of the streams of a built plan stand side by side, and a number can belong to two
samples at a border alone: a stream that is numbered downwards holds the first number behind its
window, and a stream that is numbered upwards holds the first number of its own. Call orders of a
chunk are therefore shared by pairs of samples, exactly where a stream that is numbered downwards
is followed by one that is numbered upwards.
-/

namespace SampleDemux

namespace LumpDecl

/-- Whether a stream of a lump that is numbered downwards is followed by one that is numbered
upwards. Of a lump that is repeated more than once, the last stream is followed by the first one. -/
def TurnsUpward (lump : LumpDecl) (repetitions : ℕ) : Prop :=
  ∃ place first second, lump.streams[place]? = some first ∧ first.shift = .right ∧
    second.shift = .left ∧
    (lump.streams[place + 1]? = some second ∨
      1 < repetitions ∧ place + 1 = lump.streams.length ∧ lump.streams[0]? = some second)

variable {lump : LumpDecl} {capacity : ℕ}

namespace Slot

/-- The first sample of a stream, in the order of the bits. -/
def leading (hpos : ∀ stream ∈ lump.streams, 0 < stream.rateFactor) {r place : ℕ}
    {stream : StreamDecl} (hr : r < lump.repetitions capacity)
    (hstream : lump.streams[place]? = some stream) : lump.Slot capacity where
  repetition := r
  place := place
  stream := stream
  sample := 0
  repetition_lt := hr
  stream_eq := hstream
  sample_lt := hpos stream (List.mem_of_getElem? hstream)

variable {first second : lump.Slot capacity}

/-- Samples that meet are different ones. -/
theorem Meets.ne (h : first.Meets second) : first ≠ second := by
  intro heq
  have hlt := h.1.numberedBefore.windowStart_lt
  rw [heq] at hlt
  omega

/-- Samples that meet have one number. -/
theorem Meets.number_eq (h : first.Meets second)
    (hpos : ∀ stream ∈ lump.streams, 0 < stream.rateFactor) : first.number = second.number :=
  (h.1.numberedBefore.number_eq_iff hpos).mpr h

/-- Of two samples with one number, one belongs to a stream that is numbered downwards and the
other to a stream that is numbered upwards. -/
theorem shift_ne_of_number_eq (hpos : ∀ stream ∈ lump.streams, 0 < stream.rateFactor)
    (hne : first ≠ second) (hnumber : first.number = second.number) :
    first.stream.shift ≠ second.stream.shift := by
  rcases (number_eq_iff hpos hne).mp hnumber with ⟨-, hright, hleft⟩ | ⟨-, hright, hleft⟩
  · rw [hright.1, hleft.1]
    decide
  · rw [hright.1, hleft.1]
    decide

/-- Of three samples with one number two are the same, since they are numbered in two
directions. -/
theorem eq_of_three_number_eq (hpos : ∀ stream ∈ lump.streams, 0 < stream.rateFactor)
    {third : lump.Slot capacity} (hfirst : first.number = second.number)
    (hsecond : second.number = third.number) : first = second ∨ second = third ∨ first = third := by
  by_contra! hapart
  have hone := shift_ne_of_number_eq hpos hapart.1 hfirst
  have htwo := shift_ne_of_number_eq hpos hapart.2.1 hsecond
  have hthree := shift_ne_of_number_eq hpos hapart.2.2 (hfirst.trans hsecond)
  cases hshift : first.stream.shift <;> cases hnext : second.stream.shift <;>
    cases hlast : third.stream.shift <;> simp_all

end Slot

/-- Some samples of a lump meet if and only if a stream that is numbered downwards is followed by
one that is numbered upwards. -/
theorem exists_meets_iff (hpos : ∀ stream ∈ lump.streams, 0 < stream.rateFactor) :
    (∃ first second : lump.Slot capacity, first.Meets second) ↔
      0 < lump.repetitions capacity ∧ lump.TurnsUpward (lump.repetitions capacity) := by
  constructor
  · rintro ⟨first, second, hnext, hright, hleft⟩
    have hfirst := first.repetition_lt
    have hsecond := second.repetition_lt
    refine ⟨Nat.zero_lt_of_lt hfirst, first.place, first.stream, second.stream, first.stream_eq,
      hright.1, hleft.1, ?_⟩
    rcases hnext with ⟨-, hplace⟩ | ⟨hrepetition, hlast, hzero⟩
    · exact .inl (hplace ▸ second.stream_eq)
    · refine .inr ⟨?_, hlast, hzero ▸ second.stream_eq⟩
      cases hshift : lump.shift with
      | left => rw [hshift] at hrepetition; simp only [Direction.Next] at hrepetition; omega
      | right => rw [hshift] at hrepetition; simp only [Direction.Next] at hrepetition; omega
  · rintro ⟨hrepeated, place, stream, other, hstream, hright, hleft, hother | hborder⟩
    · exact ⟨.leading hpos hrepeated hstream, .leading hpos hrepeated hother, .inl ⟨rfl, rfl⟩,
        ⟨hright, rfl⟩, hleft, rfl⟩
    · rcases hborder with ⟨htwice, hlast, hother⟩
      cases hshift : lump.shift with
      | left =>
        refine ⟨.leading hpos hrepeated hstream, .leading hpos htwice hother,
          .inr ⟨?_, hlast, rfl⟩, ⟨hright, rfl⟩, hleft, rfl⟩
        rw [hshift]
        rfl
      | right =>
        refine ⟨.leading hpos htwice hstream, .leading hpos hrepeated hother,
          .inr ⟨?_, hlast, rfl⟩, ⟨hright, rfl⟩, hleft, rfl⟩
        rw [hshift]
        rfl

end LumpDecl

namespace ChunkPlan

variable {descriptor : Descriptor} {system : System} {chunk : ChunkDecl} {plan : ChunkPlan}
  {layouts : List LumpLayout} {lump : LumpDecl} {first second order : ℕ}

/-- Samples of a built plan that meet share a call order. -/
theorem BuiltFrom.callOrderAt?_of_meets (h : BuiltFrom descriptor system chunk plan layouts)
    (hlump : lump ∈ chunk.lumps) {one other : lump.Slot chunk.capacity} (hmeets : one.Meets other) :
    plan.callOrderAt? (chunk.slotIndex one) = some one.number ∧
      plan.callOrderAt? (chunk.slotIndex other) = some one.number := by
  refine ⟨h.callOrderAt?_slotIndex hlump one, ?_⟩
  rw [hmeets.number_eq (h.rateFactor_pos hlump)]
  exact h.callOrderAt?_slotIndex hlump other

/-- Two samples of a built plan share a call order if and only if they meet. -/
theorem BuiltFrom.callOrder_shared_iff (h : BuiltFrom descriptor system chunk plan layouts)
    (hne : first ≠ second) :
    (∃ order, plan.callOrderAt? first = some order ∧ plan.callOrderAt? second = some order) ↔
      ∃ lump ∈ chunk.lumps, ∃ one other : lump.Slot chunk.capacity, one.Meets other ∧
        (chunk.slotIndex one = first ∧ chunk.slotIndex other = second ∨
          chunk.slotIndex one = second ∧ chunk.slotIndex other = first) := by
  constructor
  · rintro ⟨order, hfirst, hsecond⟩
    rcases h.exists_repeated (callOrderAt?_eq_some_iff.mp hfirst) with ⟨lump, hlump, hrepeated⟩
    rcases h.exists_slot hlump hrepeated hfirst with ⟨one, rfl, hnumber⟩
    rcases h.exists_slot hlump hrepeated hsecond with ⟨other, rfl, hsame⟩
    have hslots : one ≠ other := fun heq => hne (heq ▸ rfl)
    rcases (LumpDecl.Slot.number_eq_iff (h.rateFactor_pos hlump) hslots).mp
      (hnumber.trans hsame.symm) with hmeets | hmeets
    · exact ⟨lump, hlump, one, other, hmeets, .inl ⟨rfl, rfl⟩⟩
    · exact ⟨lump, hlump, other, one, hmeets, .inr ⟨rfl, rfl⟩⟩
  · rintro ⟨lump, hlump, one, other, hmeets, ⟨rfl, rfl⟩ | ⟨rfl, rfl⟩⟩
    · exact ⟨_, h.callOrderAt?_of_meets hlump hmeets⟩
    · exact ⟨_, (h.callOrderAt?_of_meets hlump hmeets).symm⟩

/-- Of three samples of a built plan that share a call order two are the same. -/
theorem BuiltFrom.callOrder_shared_by_two (h : BuiltFrom descriptor system chunk plan layouts)
    {third : ℕ} (hfirst : plan.callOrderAt? first = some order)
    (hsecond : plan.callOrderAt? second = some order)
    (hthird : plan.callOrderAt? third = some order) :
    first = second ∨ second = third ∨ first = third := by
  rcases h.exists_repeated (callOrderAt?_eq_some_iff.mp hfirst) with ⟨lump, hlump, hrepeated⟩
  rcases h.exists_slot hlump hrepeated hfirst with ⟨one, rfl, hone⟩
  rcases h.exists_slot hlump hrepeated hsecond with ⟨other, rfl, hother⟩
  rcases h.exists_slot hlump hrepeated hthird with ⟨further, rfl, hfurther⟩
  exact (LumpDecl.Slot.eq_of_three_number_eq (h.rateFactor_pos hlump) (hone.trans hother.symm)
    (hother.trans hfurther.symm)).imp (congrArg chunk.slotIndex)
      (Or.imp (congrArg chunk.slotIndex) (congrArg chunk.slotIndex))

/-- The call orders of a built plan are different ones if and only if no samples meet. -/
theorem BuiltFrom.callOrder_injective_iff (h : BuiltFrom descriptor system chunk plan layouts) :
    (∀ first second order, plan.callOrderAt? first = some order →
        plan.callOrderAt? second = some order → first = second) ↔
      ∀ lump ∈ chunk.lumps, ¬ ∃ one other : lump.Slot chunk.capacity, one.Meets other := by
  constructor
  · rintro hdistinct lump hlump ⟨one, other, hmeets⟩
    have hshared := h.callOrderAt?_of_meets hlump hmeets
    exact hmeets.ne (slotIndex_injective (hdistinct _ _ _ hshared.1 hshared.2))
  · intro hnone first second order hfirst hsecond
    by_contra hne
    rcases (h.callOrder_shared_iff hne).mp ⟨order, hfirst, hsecond⟩ with
      ⟨lump, hlump, one, other, hmeets, -⟩
    exact hnone lump hlump ⟨one, other, hmeets⟩

/-- Two samples of a built plan share a call order if and only if one is the first sample of a
stream that is numbered downwards and the other the first sample of a stream that is numbered
upwards directly after it, in the same repetition or in the one that is numbered next. So no call
order is shared by three samples, and the call orders are different ones exactly if, in the lump
that is repeated, no stream that is numbered downwards is followed by one that is numbered upwards,
where the last stream is followed by the first one if there are several repetitions. -/
theorem build_shared_call_orders (h : build descriptor system chunk = .ok plan) :
    plan.HoldsSamplesOf chunk ∧
    (∀ first second, first ≠ second →
      ((∃ order, plan.callOrderAt? first = some order ∧ plan.callOrderAt? second = some order) ↔
        ∃ lump ∈ chunk.lumps, ∃ one other : lump.Slot chunk.capacity, one.Meets other ∧
          (chunk.slotIndex one = first ∧ chunk.slotIndex other = second ∨
            chunk.slotIndex one = second ∧ chunk.slotIndex other = first))) ∧
    (∀ first second third order, plan.callOrderAt? first = some order →
      plan.callOrderAt? second = some order → plan.callOrderAt? third = some order →
      first = second ∨ second = third ∨ first = third) ∧
    ((∀ first second order, plan.callOrderAt? first = some order →
        plan.callOrderAt? second = some order → first = second) ↔
      ∀ lump ∈ chunk.lumps, 0 < chunk.capacity / lump.bits →
        ¬ lump.TurnsUpward (chunk.capacity / lump.bits)) := by
  rcases build_ok h with ⟨layouts, hbuilt⟩
  refine ⟨hbuilt.holdsSamplesOf, fun first second hne => hbuilt.callOrder_shared_iff hne,
    fun first second third order => hbuilt.callOrder_shared_by_two, ?_⟩
  rw [hbuilt.callOrder_injective_iff]
  refine forall₂_congr fun lump hlump => ?_
  rw [LumpDecl.exists_meets_iff (hbuilt.rateFactor_pos hlump), not_and]
  rfl

/-- Two repetitions of a lump that is numbered downwards share a call order at their border: the
last stream of the second one and the first stream of the first one. -/
theorem build_shared_call_orders_of_sharedOrderChunk :
    ∃ plan, build packedDescriptor {} sharedOrderChunk = .ok plan ∧
      (plan.callOrderAt? 8 = some 8 ∧ plan.callOrderAt? 1 = some 8) ∧
      (∃ lump ∈ sharedOrderChunk.lumps, ∃ one other : lump.Slot sharedOrderChunk.capacity,
        one.Meets other ∧
          (sharedOrderChunk.slotIndex one = 8 ∧ sharedOrderChunk.slotIndex other = 1 ∨
            sharedOrderChunk.slotIndex one = 1 ∧ sharedOrderChunk.slotIndex other = 8)) ∧
      ¬ ∀ first second order, plan.callOrderAt? first = some order →
        plan.callOrderAt? second = some order → first = second := by
  obtain ⟨plan, hplan, hlater, hearlier⟩ :
      ∃ plan, build packedDescriptor {} sharedOrderChunk = .ok plan ∧
        plan.callOrderAt? 8 = some 8 ∧ plan.callOrderAt? 1 = some 8 :=
    ⟨_, rfl, by decide, by decide⟩
  rcases build_shared_call_orders hplan with ⟨-, hshared, -, hdistinct⟩
  refine ⟨plan, hplan, ⟨hlater, hearlier⟩,
    (hshared 8 1 (by decide)).mp ⟨8, hlater, hearlier⟩, fun hall => ?_⟩
  -- The second stream is the last one and is followed by the first one.
  exact hdistinct.mp hall _ (List.mem_singleton_self _) (by decide)
    ⟨1, _, _, rfl, rfl, rfl, .inr ⟨by decide, rfl, rfl⟩⟩

end ChunkPlan

end SampleDemux
