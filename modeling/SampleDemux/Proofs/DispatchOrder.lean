import SampleDemux.Proofs.Windows

/-!
# The complete order in which a chunk is handed on

Sorting by call order is stable, so of two samples the one with the smaller number is handed on
first, and of two samples with one number the one with the smaller index. A lump that is numbered
upwards is therefore handed on repetition by repetition and stream by stream: where two numbers
meet, the order of the bits is the order of the windows. In a lump that is numbered downwards the
later repetition has the smaller numbers but the larger indices, so that a meeting of two
repetitions swaps the two samples that meet, and nothing else.
-/

namespace SampleDemux

namespace ChunkPlan

/-- Whether a sample is handed on before another: by number, and by index where numbers are
equal. -/
def HandedOnBefore (first second : ℕ × ℕ) : Prop :=
  first.1 < second.1 ∨ first.1 = second.1 ∧ first.2 < second.2

namespace HandedOnBefore

variable {first second : ℕ × ℕ}

/-- No two samples are handed on before each other. -/
theorem asymm (h : HandedOnBefore first second) : ¬ HandedOnBefore second first := by
  unfold HandedOnBefore at *
  omega

/-- A sample of no larger number and of a smaller index is handed on before. -/
theorem of_le (hnumber : first.1 ≤ second.1) (hindex : first.2 < second.2) :
    HandedOnBefore first second := by
  unfold HandedOnBefore
  omega

/-- Samples in the order in which they are handed on are different ones. -/
theorem nodup {samples : List (ℕ × ℕ)} (h : samples.Pairwise HandedOnBefore) : samples.Nodup :=
  h.imp fun {first second} hbefore heq => by
    subst heq
    exact hbefore.asymm hbefore

end HandedOnBefore

/-- Samples that stand in the order of their indices are sorted into the order in which they are
handed on. -/
theorem pairwise_mergeSort_handedOn {samples : List (ℕ × ℕ)}
    (hindices : samples.Pairwise fun first second => first.2 < second.2) :
    (samples.mergeSort fun a b => decide (a.1 ≤ b.1)).Pairwise HandedOnBefore := by
  refine List.pairwise_iff_forall_sublist.mpr fun {first second} hpair => ?_
  have hle := List.pairwise_iff_forall_sublist.mp (pairwise_mergeSort_fst samples) hpair
  rcases Nat.lt_or_eq_of_le hle with hlt | heq
  · exact .inl hlt
  · -- Samples of one number keep the order in which they stood before.
    have hsame := hpair.filter fun sample => sample.1 == first.1
    rw [filter_mergeSort_fst] at hsame
    have hboth : [first, second].filter (fun sample => sample.1 == first.1) = [first, second] := by
      simp [heq]
    rw [hboth] at hsame
    exact .inr ⟨heq, List.pairwise_iff_forall_sublist.mp (hindices.filter _) hsame⟩

/-- The samples of a plan with their numbers, in the order in which they are handed on. -/
theorem pairwise_dispatchOrder (plan : ChunkPlan) :
    plan.dispatchOrder.Pairwise fun first second =>
      ∀ number other, plan.callOrderAt? first = some number →
        plan.callOrderAt? second = some other → HandedOnBefore (number, first) (other, second) := by
  have hsorted := pairwise_mergeSort_handedOn (pairwise_numberedSamples plan.units)
  refine List.pairwise_map.mpr (hsorted.imp_of_mem fun {first second} hfirst hsecond hbefore => ?_)
  intro number other hnumber hother
  have hfirst := callOrderAt?_eq_some_iff.mpr (List.mem_mergeSort.mp hfirst)
  have hsecond := callOrderAt?_eq_some_iff.mpr (List.mem_mergeSort.mp hsecond)
  obtain rfl := Option.some_inj.mp (hfirst.symm.trans hnumber)
  obtain rfl := Option.some_inj.mp (hsecond.symm.trans hother)
  exact hbefore

/-- Every unit with a call order is handed on. -/
theorem mem_dispatchOrder {plan : ChunkPlan} {index number : ℕ}
    (hnumber : plan.callOrderAt? index = some number) : index ∈ plan.dispatchOrder :=
  List.mem_map.mpr ⟨(number, index), List.mem_mergeSort.mpr (callOrderAt?_eq_some_iff.mp hnumber),
    rfl⟩

/-- Of two samples of a plan the one with the smaller call order is handed on first, and of two
samples with one call order the one with the smaller index. -/
theorem idxOf_dispatchOrder_lt_iff {plan : ChunkPlan} {first second number other : ℕ}
    (hfirst : plan.callOrderAt? first = some number)
    (hsecond : plan.callOrderAt? second = some other) (hne : first ≠ second) :
    plan.dispatchOrder.idxOf first < plan.dispatchOrder.idxOf second ↔
      HandedOnBefore (number, first) (other, second) := by
  have hplaces := idxOf_lt_idxOf_iff plan.pairwise_dispatchOrder first second
    (fun hbefore hbehind => (hbefore number other hfirst hsecond).asymm
      (hbehind other number hsecond hfirst)) hne (mem_dispatchOrder hfirst)
    (mem_dispatchOrder hsecond)
  refine hplaces.trans ⟨fun hbefore => hbefore number other hfirst hsecond, ?_⟩
  intro hbefore a b ha hb
  obtain rfl := Option.some_inj.mp (hfirst.symm.trans ha)
  obtain rfl := Option.some_inj.mp (hsecond.symm.trans hb)
  exact hbefore

end ChunkPlan

/-- Repetitions that are arranged in a direction come before each other in it. -/
theorem pairwise_precedes (direction : Direction) (count : ℕ) :
    (direction.arrange (List.range count)).Pairwise direction.Precedes := by
  refine pairwise_arrange_range count (fun hleft i j hlt _ => ?_) (fun hright i j hlt _ => ?_)
  · rw [hleft]
    exact hlt
  · rw [hright]
    exact hlt

namespace ChunkDecl

/-- Indices of the samples of one repetition of a declared lump, stream by stream and each stream
in its direction. -/
def repetitionOrder (chunk : ChunkDecl) (lump : LumpDecl) (r : ℕ) : List ℕ :=
  (lump.streams.mapIdx fun place stream =>
    stream.shift.arrange
      ((List.range stream.rateFactor).map (chunk.sampleIndex lump place stream r))).flatten

/-- The samples of a declared lump with their numbers, repetition by repetition in the direction of
the lump, stream by stream, and each stream in its direction. -/
def arranged (chunk : ChunkDecl) (lump : LumpDecl) : List (ℕ × ℕ) :=
  (lump.shift.arrange (List.range (lump.repetitions chunk.capacity))).flatMap fun r =>
    (lump.streams.mapIdx fun place stream =>
      (stream.shift.arrange (List.range stream.rateFactor)).map fun k =>
        (stream.orderFrom (lump.windowStart chunk.capacity place r) k,
          chunk.sampleIndex lump place stream r k)).flatten

variable {chunk : ChunkDecl} {lump : LumpDecl}

/-- The indices of arranged samples, repetition by repetition. -/
theorem map_snd_arranged :
    (chunk.arranged lump).map Prod.snd =
      (lump.shift.arrange (List.range (lump.repetitions chunk.capacity))).flatMap
        (chunk.repetitionOrder lump) := by
  rw [arranged, List.map_flatMap]
  refine List.flatMap_congr fun r _ => ?_
  rw [List.map_flatten, repetitionOrder]
  refine congrArg List.flatten (List.ext_getElem (by simp) fun place _ _ => ?_)
  rw [List.getElem_map, List.getElem_mapIdx, List.getElem_mapIdx, List.map_map, arrange_map]
  rfl

/-- The arranged samples are the declared ones. -/
theorem mem_arranged {sample : ℕ × ℕ} :
    sample ∈ chunk.arranged lump ↔
      ∃ slot : lump.Slot chunk.capacity, (slot.number, chunk.slotIndex slot) = sample := by
  rw [arranged, List.mem_flatMap]
  constructor
  · rintro ⟨r, hr, hsample⟩
    rcases mem_flatten_mapIdx.mp hsample with ⟨place, stream, hstream, hsample⟩
    rcases List.mem_map.mp hsample with ⟨k, hk, rfl⟩
    rw [mem_arrange, List.mem_range] at hr hk
    exact ⟨⟨r, place, stream, k, hr, hstream, hk⟩, rfl⟩
  · rintro ⟨slot, rfl⟩
    refine ⟨slot.repetition, mem_arrange.mpr (List.mem_range.mpr slot.repetition_lt), ?_⟩
    refine mem_flatten_mapIdx.mpr ⟨slot.place, slot.stream, slot.stream_eq, ?_⟩
    exact List.mem_map.mpr
      ⟨slot.sample, mem_arrange.mpr (List.mem_range.mpr slot.sample_lt), rfl⟩

/-- A sample is handed on before one whose stream is numbered behind its own, if no two repetitions
of a lump that is numbered downwards meet. -/
theorem handedOnBefore_of_numberedBefore {first second : lump.Slot chunk.capacity}
    (h : first.NumberedBefore second) (hpos : ∀ stream ∈ lump.streams, 0 < stream.rateFactor)
    (hborder : lump.shift = .right → first.repetition ≠ second.repetition →
      ¬ first.Meets second) :
    ChunkPlan.HandedOnBefore (first.number, chunk.slotIndex first)
      (second.number, chunk.slotIndex second) := by
  have hnumbers := h.number_le
  have hmeets := h.number_eq_iff hpos
  rcases h with hprecedes | hplaces
  · cases hshift : lump.shift with
    | left =>
      rw [hshift] at hprecedes
      exact .of_le hnumbers (slotIndex_lt (.inl hprecedes))
    | right =>
      -- The later repetition has the larger indices, so its numbers must be the smaller ones.
      rw [hshift] at hprecedes
      have hapart : first.number ≠ second.number := fun heq =>
        hborder hshift (Nat.ne_of_gt hprecedes) (hmeets.mp heq)
      exact .inl (Nat.lt_of_le_of_ne hnumbers hapart)
  · exact .of_le hnumbers (slotIndex_lt (.inr hplaces))

/-- Arranged samples stand in the order in which they are handed on, if no two repetitions of a
lump that is numbered downwards meet. -/
theorem pairwise_arranged (hpos : ∀ stream ∈ lump.streams, 0 < stream.rateFactor)
    (hborder : lump.shift = .right → ∀ first second : lump.Slot chunk.capacity,
      first.repetition ≠ second.repetition → ¬ first.Meets second) :
    (chunk.arranged lump).Pairwise ChunkPlan.HandedOnBefore := by
  have hslots (first second : lump.Slot chunk.capacity) (h : first.NumberedBefore second) :=
    handedOnBefore_of_numberedBefore h hpos fun hshift => hborder hshift first second
  refine List.pairwise_flatMap.mpr ⟨fun r hr => ?_, ?_⟩
  · rw [mem_arrange, List.mem_range] at hr
    refine pairwise_flatten_mapIdx (fun place stream hstream => ?_) ?_
    · -- Inside a window the numbers rise.
      exact List.pairwise_map.mpr ((pairwise_orderFrom _).imp fun hlt => .inl hlt)
    · intro place stream next other hstream hother hlt first hfirst second hsecond
      rcases List.mem_map.mp hfirst with ⟨i, hi, rfl⟩
      rcases List.mem_map.mp hsecond with ⟨j, hj, rfl⟩
      rw [mem_arrange, List.mem_range] at hi hj
      exact hslots ⟨r, place, stream, i, hr, hstream, hi⟩ ⟨r, next, other, j, hr, hother, hj⟩
        (.inr ⟨rfl, hlt⟩)
  · refine (pairwise_precedes lump.shift _).imp_of_mem
      fun {r next} hr hnext hprecedes first hfirst second hsecond => ?_
    rw [mem_arrange, List.mem_range] at hr hnext
    rcases mem_flatten_mapIdx.mp hfirst with ⟨place, stream, hstream, hfirst⟩
    rcases mem_flatten_mapIdx.mp hsecond with ⟨other, further, hfurther, hsecond⟩
    rcases List.mem_map.mp hfirst with ⟨i, hi, rfl⟩
    rcases List.mem_map.mp hsecond with ⟨j, hj, rfl⟩
    rw [mem_arrange, List.mem_range] at hi hj
    exact hslots ⟨r, place, stream, i, hr, hstream, hi⟩
      ⟨next, other, further, j, hnext, hfurther, hj⟩ (.inl hprecedes)

end ChunkDecl

namespace ChunkPlan

variable {descriptor : Descriptor} {system : System} {chunk : ChunkDecl} {plan : ChunkPlan}
  {layouts : List LumpLayout} {lump : LumpDecl}

/-- A built plan is handed on as arranged, if no two repetitions of a lump that is numbered
downwards meet. -/
theorem BuiltFrom.dispatchOrder_eq (h : BuiltFrom descriptor system chunk plan layouts)
    (hlump : lump ∈ chunk.lumps) (hrepeated : 0 < lump.repetitions chunk.capacity)
    (hborder : lump.shift = .right → ∀ first second : lump.Slot chunk.capacity,
      first.repetition ≠ second.repetition → ¬ first.Meets second) :
    plan.dispatchOrder =
      (lump.shift.arrange (List.range (lump.repetitions chunk.capacity))).flatMap
        (chunk.repetitionOrder lump) := by
  have harranged := ChunkDecl.pairwise_arranged (h.rateFactor_pos hlump) hborder
  have hindices := pairwise_numberedSamples plan.units
  have hsame : (chunk.arranged lump).Perm (numberedSamples plan.units) := by
    refine (List.perm_ext_iff_of_nodup (HandedOnBefore.nodup harranged)
      (hindices.imp fun hlt heq => Nat.ne_of_lt hlt (congrArg Prod.snd heq))).mpr fun sample => ?_
    rcases sample with ⟨number, index⟩
    rw [ChunkDecl.mem_arranged, ← callOrderAt?_eq_some_iff]
    constructor
    · rintro ⟨slot, hslot⟩
      cases hslot
      exact h.callOrderAt?_slotIndex hlump slot
    · intro hnumber
      rcases h.exists_slot hlump hrepeated hnumber with ⟨slot, rfl, rfl⟩
      exact ⟨slot, rfl⟩
  have hsorted : chunk.arranged lump =
      (numberedSamples plan.units).mergeSort fun a b => decide (a.1 ≤ b.1) :=
    List.Perm.eq_of_pairwise (fun first second _ _ hbefore hbehind => absurd hbehind hbefore.asymm)
      harranged (pairwise_mergeSort_handedOn hindices)
      (hsame.trans (List.mergeSort_perm _ _).symm)
  rw [← ChunkDecl.map_snd_arranged, hsorted, dispatchOrder]

/-- A built plan whose repeated lump is numbered upwards is handed on repetition by repetition in
the order of the bits, in each repetition stream by stream in the order of the declarations, and of
each stream in the order of the bits when it is numbered upwards and the other way round otherwise.
Streams are never interleaved, whichever call orders they share or leave out. -/
theorem build_upward_lump_order (h : build descriptor system chunk = .ok plan)
    (hlump : lump ∈ chunk.lumps) (hrepeated : 0 < chunk.capacity / lump.bits)
    (hshift : lump.shift = .left) :
    plan.HoldsSamplesOf chunk ∧ plan.dispatchOrder.Perm plan.sampleIndices ∧
    plan.dispatchOrder =
      (List.range (chunk.capacity / lump.bits)).flatMap (chunk.repetitionOrder lump) := by
  rcases build_ok h with ⟨layouts, hbuilt⟩
  have hborder : lump.shift = .right → ∀ first second : lump.Slot chunk.capacity,
      first.repetition ≠ second.repetition → ¬ first.Meets second := by
    intro hright
    rw [hshift] at hright
    cases hright
  have horder := hbuilt.dispatchOrder_eq hlump hrepeated hborder
  rw [hshift] at horder
  exact ⟨hbuilt.holdsSamplesOf, plan.dispatchOrder_perm, horder⟩

/-- The streams of two that share a call order, in a lump that is numbered upwards. -/
def upwardChunk : ChunkDecl :=
  { sharedOrderChunk with
    lumps := sharedOrderChunk.lumps.map fun lump => { lump with shift := .left } }

/-- Two neighbouring repetitions share a call order, and are handed on one after the other. -/
theorem build_upward_lump_order_of_upwardChunk :
    ∃ plan, build packedDescriptor {} upwardChunk = .ok plan ∧
      plan.units.filterMap (·.callOrder?) = [0, 1, 4, 3, 4, 5, 8, 7] ∧
      plan.dispatchOrder = [1, 2, 4, 3, 6, 7, 9, 8] := by
  obtain ⟨plan, hplan, horders⟩ : ∃ plan, build packedDescriptor {} upwardChunk = .ok plan ∧
      plan.units.filterMap (·.callOrder?) = [0, 1, 4, 3, 4, 5, 8, 7] := ⟨_, rfl, by decide⟩
  rcases build_upward_lump_order hplan (List.mem_singleton_self _) (by decide) rfl with
    ⟨-, -, horder⟩
  exact ⟨plan, hplan, horders, horder⟩

/-- Samples of two repetitions of a lump that is numbered downwards meet where its last stream is
numbered downwards and its first stream upwards. -/
theorem meets_of_later {first second : lump.Slot chunk.capacity} (hshift : lump.shift = .right)
    (hlater : second.repetition < first.repetition) :
    first.Meets second ↔
      first.repetition = second.repetition + 1 ∧
      (first.place + 1 = lump.streams.length ∧ first.stream.shift = .right ∧ first.sample = 0) ∧
      second.place = 0 ∧ second.stream.shift = .left ∧ second.sample = 0 := by
  unfold LumpDecl.Slot.Meets LumpDecl.Slot.NumberedNext LumpDecl.Slot.Leads
  rw [hshift]
  simp only [Direction.Next]
  constructor
  · rintro ⟨⟨hsame, -⟩ | ⟨hnext, hlast, hfirst⟩, hright, hleft⟩
    · omega
    · exact ⟨hnext, ⟨hlast, hright⟩, hfirst, hleft⟩
  · rintro ⟨hnext, ⟨hlast, hright⟩, hfirst, hleft⟩
    exact ⟨.inr ⟨hnext, hlast, hfirst⟩, hright, hleft⟩

/-- In a built plan whose lump is numbered downwards, a sample of a later repetition is handed on
before every sample of an earlier one, with one exception at each border: if the first stream of the
lump is numbered upwards and the last one downwards, their first samples of two neighbouring
repetitions share a call order, and that of the earlier repetition goes first. Where that does not
arise, the lump is handed on by whole repetitions, the last one first. -/
theorem build_downward_lump_order (h : build descriptor system chunk = .ok plan)
    (hlump : lump ∈ chunk.lumps) (hshift : lump.shift = .right) :
    plan.HoldsSamplesOf chunk ∧ plan.dispatchOrder.Perm plan.sampleIndices ∧
    (∀ earlier later : lump.Slot chunk.capacity, earlier.repetition < later.repetition →
      (plan.dispatchOrder.idxOf (chunk.slotIndex later) <
          plan.dispatchOrder.idxOf (chunk.slotIndex earlier) ↔
        ¬ (later.repetition = earlier.repetition + 1 ∧
          (later.place + 1 = lump.streams.length ∧ later.stream.shift = .right ∧
            later.sample = 0) ∧
          earlier.place = 0 ∧ earlier.stream.shift = .left ∧ earlier.sample = 0))) ∧
    (0 < chunk.capacity / lump.bits →
      ¬ (lump.streams.head?.map (·.shift) = some .left ∧
        lump.streams.getLast?.map (·.shift) = some .right) →
      plan.dispatchOrder =
        (List.range (chunk.capacity / lump.bits)).reverse.flatMap
          (chunk.repetitionOrder lump)) := by
  rcases build_ok h with ⟨layouts, hbuilt⟩
  refine ⟨hbuilt.holdsSamplesOf, plan.dispatchOrder_perm, ?_, ?_⟩
  · intro earlier later hlater
    have hbefore : later.NumberedBefore earlier := by
      refine .inl ?_
      rw [hshift]
      exact hlater
    have hindex := slotIndex_lt (.inl hlater)
    have hnumbers := hbefore.number_le
    rw [idxOf_dispatchOrder_lt_iff (hbuilt.callOrderAt?_slotIndex hlump later)
      (hbuilt.callOrderAt?_slotIndex hlump earlier) (Nat.ne_of_gt hindex),
      ← meets_of_later hshift hlater, ← hbefore.number_eq_iff (hbuilt.rateFactor_pos hlump),
      HandedOnBefore]
    omega
  · intro hrepeated hends
    have horder := hbuilt.dispatchOrder_eq hlump hrepeated fun _ first second hne hmeets => ?_
    · rw [hshift] at horder
      exact horder
    · rcases hmeets with ⟨⟨hsame, -⟩ | ⟨-, hlast, hfirst⟩, hright, hleft⟩
      · exact hne hsame
      · refine hends ⟨?_, ?_⟩
        · rw [List.head?_eq_getElem?, ← hfirst, second.stream_eq, Option.map_some, hleft.1]
        · rw [List.getLast?_eq_getElem?, ← hlast, Nat.add_sub_cancel, first.stream_eq,
            Option.map_some, hright.1]

end ChunkPlan

/-- The first and the last stream of a lump, the one numbered upwards and the other downwards, in a
lump that is numbered downwards; both declare one identity. -/
def borderLump : LumpDecl where
  shift := .right
  streams := [
    { id := "A", packedBits := 2, quantization := 2, bands := ["L"] },
    { id := "A", packedBits := 2, shift := .right, quantization := 2, bands := ["L"] }]

/-- A chunk that holds two repetitions of such a lump. -/
def borderChunk : ChunkDecl where
  lumps := [borderLump]

/-- The sample of a stream in a repetition of the lump. -/
def borderSlot (r place : Fin 2) : borderLump.Slot borderChunk.capacity where
  repetition := r
  place := place
  stream := borderLump.streams[place]
  sample := 0
  repetition_lt := r.isLt
  stream_eq := List.getElem?_eq_getElem _
  sample_lt := by
    revert place
    decide

namespace ChunkPlan

/-- Of the two samples that meet at the border of two repetitions the one of the earlier repetition
is handed on first, all others by whole repetitions. -/
theorem build_downward_lump_order_of_borderChunk :
    ∃ plan, build packedDescriptor {} borderChunk = .ok plan ∧
      (plan.dispatchOrder.idxOf 2 < plan.dispatchOrder.idxOf 0 ∧
        plan.dispatchOrder.idxOf 2 < plan.dispatchOrder.idxOf 1 ∧
        plan.dispatchOrder.idxOf 3 < plan.dispatchOrder.idxOf 1) ∧
      ¬ plan.dispatchOrder.idxOf 3 < plan.dispatchOrder.idxOf 0 := by
  obtain ⟨plan, hplan⟩ : ∃ plan, build packedDescriptor {} borderChunk = .ok plan := ⟨_, rfl⟩
  rcases build_downward_lump_order hplan (List.mem_singleton_self borderLump) rfl with
    ⟨-, -, horder, -⟩
  have hstreams (first second : Fin 2) := horder (borderSlot 0 first) (borderSlot 1 second)
    Nat.zero_lt_one
  exact ⟨plan, hplan,
    ⟨(hstreams 0 0).mpr (by decide), (hstreams 1 0).mpr (by decide),
      (hstreams 1 1).mpr (by decide)⟩,
    fun hlt => (hstreams 0 1).mp hlt (by decide)⟩

/-- In a lump that is numbered downwards a sample of the first repetition can be handed on before
one of the second, also where both belong to one identity. -/
theorem repetitions_of_borderChunk_interleave :
    ∃ plan, build packedDescriptor {} borderChunk = .ok plan ∧
      borderLump ∈ borderChunk.lumps ∧ borderLump.shift = .right ∧
      ∃ earlier later : borderLump.Slot borderChunk.capacity,
        earlier.repetition < later.repetition ∧ earlier.stream.id = later.stream.id ∧
        plan.dispatchOrder.idxOf (borderChunk.slotIndex earlier) <
          plan.dispatchOrder.idxOf (borderChunk.slotIndex later) := by
  obtain ⟨plan, hplan, hearlier, hlater⟩ :
      ∃ plan, build packedDescriptor {} borderChunk = .ok plan ∧
        plan.callOrderAt? 0 = some 4 ∧ plan.callOrderAt? 3 = some 4 :=
    ⟨_, rfl, by decide, by decide⟩
  refine ⟨plan, hplan, List.mem_singleton_self _, rfl, borderSlot 0 0, borderSlot 1 1,
    Nat.zero_lt_one, rfl, ?_⟩
  exact (idxOf_dispatchOrder_lt_iff hearlier hlater (by decide)).mpr (.inr ⟨rfl, by decide⟩)

end ChunkPlan

end SampleDemux
