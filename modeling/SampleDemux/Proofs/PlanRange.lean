import SampleDemux.Plan.Bounded
import SampleDemux.Proofs.Acceptance
import SampleDemux.Proofs.Sequences

/-!
# The range of the numbers of a plan

A chunk that is not too large is planned with numbers of 64 bits as with exact ones. A sample has at
least one bit, so a repetition of a lump has no more samples than bits, and all repetitions together
have no more samples than the chunk has bits. Call orders begin at the number of the samples before
them in their lump's direction, so they and what they are computed from stay within one repetition
behind the end of the lump.
-/

namespace SampleDemux

namespace BoundedPlan

/-- After a step that succeeds the next one is made. -/
@[simp]
theorem ok_bind {α β : Type} (value : α) (next : α → Except PlanStop β) :
    (Except.ok value >>= next) = next value := rfl

section Steps

variable {largest a b : ℕ}

/-- A sum of the range is exact. -/
theorem add_eq (h : a + b ≤ largest) : add largest a b = .ok (a + b) := if_pos h

/-- A product of the range is exact. -/
theorem mul_eq (h : a * b ≤ largest) : mul largest a b = .ok (a * b) := if_pos h

/-- A difference that is not negative is exact. -/
theorem sub_eq (h : b ≤ a) : sub a b = .ok (a - b) := if_pos h

/-- A sum of counts of the range is exact, and so are all sums on the way. -/
theorem sumFrom_eq {start : ℕ} {counts : List ℕ} (h : start + counts.sum ≤ largestWord) :
    sumFrom start counts = .ok (start + counts.sum) := by
  unfold sumFrom
  induction counts generalizing start with
  | nil => rfl
  | cons count counts ih =>
    rw [List.sum_cons] at h
    have hfirst : start + count ≤ largestWord := by omega
    have hrest : start + count + counts.sum ≤ largestWord := by omega
    rw [List.foldlM_cons, add_eq hfirst, ok_bind, ih hrest, List.sum_cons, Nat.add_assoc]

end Steps

section Units

variable {largest base : ℕ} {layout : StreamLayout} {layouts : List StreamLayout}

/-- A call order moved on so many times. -/
def movedOrder (direction : Direction) (order count : ℕ) : ℕ :=
  match direction with
  | .left => order + count
  | .right => order - count

/-- Samples are numbered from a call order on if the numbers behind the last one are in the range.
-/
theorem samplesFrom_eq {count order : ℕ} (hup : layout.shift = .left → order + count ≤ largest)
    (hdown : layout.shift = .right → count ≤ order) :
    samplesFrom largest layout count order =
      .ok ((List.range count).map fun k =>
        .sample layout.stream layout.decoder (movedOrder layout.shift order k)) := by
  induction count generalizing order with
  | zero => rfl
  | succ count ih =>
    have hnext : nextOrder largest layout.shift order = .ok (movedOrder layout.shift order 1) := by
      cases hshift : layout.shift with
      | left => exact add_eq (by have := hup hshift; omega)
      | right => exact sub_eq (by have := hdown hshift; omega)
    have hbehind (k : ℕ) : movedOrder layout.shift (movedOrder layout.shift order 1) k =
        movedOrder layout.shift order (k + 1) := by
      cases layout.shift with
      | left => exact Nat.add_right_comm order 1 k
      | right => exact Nat.sub_right_comm order 1 k
    have hrest := @ih (movedOrder layout.shift order 1)
      (fun hshift => by have := hup hshift; rw [hshift]; simp only [movedOrder]; omega)
      (fun hshift => by have := hdown hshift; rw [hshift]; simp only [movedOrder]; omega)
    have hfirst : movedOrder layout.shift order 0 = order := by
      cases layout.shift <;> rfl
    rw [samplesFrom, hnext, ok_bind, hrest, ok_bind, List.range_succ_eq_map, List.map_cons,
      List.map_map, hfirst]
    simp only [hbehind]
    rfl

/-- The samples of a stream are numbered from a number on if the next number behind them is in the
range. A stream that is numbered downwards begins with that one, and ends with the number that it is
numbered from. -/
theorem samplesFrom_callOrder (h : base + layout.rateFactor ≤ largest) :
    samplesFrom largest layout layout.rateFactor (layout.callOrder base 0) =
      .ok (layout.samples base) := by
  have hmoved (k : ℕ) : movedOrder layout.shift (layout.callOrder base 0) k =
      layout.callOrder base k := by
    unfold movedOrder StreamLayout.callOrder
    cases layout.shift <;> rfl
  have hfirst : layout.shift = .left → layout.callOrder base 0 = base := fun hshift => by
    rw [StreamLayout.callOrder, hshift, Nat.add_zero]
  have hlast : layout.shift = .right → layout.callOrder base 0 = base + layout.rateFactor :=
    fun hshift => by rw [StreamLayout.callOrder, hshift, Nat.sub_zero]
  rw [samplesFrom_eq (fun hshift => by rw [hfirst hshift]; exact h)
    (fun hshift => by rw [hlast hshift]; exact Nat.le_add_left _ _), StreamLayout.samples]
  simp only [hmoved]

section Lump

variable {lump : LumpLayout} {repetition before : ℕ}

/-- The repetitions that are numbered before one are counted without a negative number. -/
theorem exists_turnOf_eq (hrepetition : repetition ≤ lump.repetitions) :
    ∃ turn, turnOf lump.shift lump.repetitions repetition = .ok turn ∧
      lump.base repetition = turn * LumpLayout.samplesPerRepetition lump.streams := by
  unfold turnOf LumpLayout.base
  cases lump.shift with
  | left => exact ⟨repetition, rfl, rfl⟩
  | right => exact ⟨lump.repetitions - repetition, sub_eq hrepetition, rfl⟩

/-- The first number of a stream is in the range if the next number behind its samples is. -/
theorem firstOrder_eq (hrepetition : repetition ≤ lump.repetitions)
    (h : lump.base repetition + before + layout.rateFactor ≤ largest) :
    firstOrder largest lump.shift lump.repetitions
      (LumpLayout.samplesPerRepetition lump.streams) repetition before layout =
        .ok (layout.callOrder (lump.base repetition + before) 0) := by
  obtain ⟨turn, hturn, hbase⟩ := exists_turnOf_eq hrepetition
  rw [hbase] at h ⊢
  have hstart : turn * LumpLayout.samplesPerRepetition lump.streams ≤ largest := by omega
  have horder : turn * LumpLayout.samplesPerRepetition lump.streams + before ≤ largest := by omega
  rw [firstOrder, hturn, ok_bind, mul_eq hstart, ok_bind, add_eq horder, ok_bind,
    StreamLayout.callOrder]
  cases layout.shift with
  | left => rfl
  | right => exact add_eq h

/-- The units of streams side by side are numbered in the range if the number behind their samples
is. -/
theorem streamsUnits_eq (hrepetition : repetition ≤ lump.repetitions)
    (h : lump.base repetition + before + LumpLayout.samplesPerRepetition layouts ≤ largest) :
    streamsUnits largest lump.shift lump.repetitions
      (LumpLayout.samplesPerRepetition lump.streams) repetition before layouts =
        .ok (LumpLayout.repetitionUnits (lump.base repetition + before) layouts) := by
  induction layouts generalizing before with
  | nil => rfl
  | cons layout layouts ih =>
    have hsamples : LumpLayout.samplesPerRepetition (layout :: layouts) =
        layout.rateFactor + LumpLayout.samplesPerRepetition layouts := rfl
    rw [hsamples] at h
    have horder : lump.base repetition + before + layout.rateFactor ≤ largest := by omega
    have hbehind : before + layout.rateFactor ≤ largest := by omega
    have hrest := @ih (before + layout.rateFactor) (by omega)
    rw [streamsUnits, firstOrder_eq hrepetition horder, ok_bind, samplesFrom_callOrder horder,
      ok_bind, add_eq hbehind, ok_bind, hrest, ok_bind, LumpLayout.repetitionUnits,
      ← Nat.add_assoc]
    rfl

/-- All call orders of a lump, and the numbers that they are computed from, are in the range if the
lump and one more repetition have no more samples. -/
theorem lumpUnits_eq
    (h : lump.repetitions * LumpLayout.samplesPerRepetition lump.streams +
      LumpLayout.samplesPerRepetition lump.streams ≤ largest) :
    lumpUnits largest lump.shift lump.repetitions (LumpLayout.samplesPerRepetition lump.streams)
      lump.streams = .ok lump.units := by
  have hbase (repetition : ℕ) (hrepetition : repetition ≤ lump.repetitions) :
      lump.base repetition ≤
        lump.repetitions * LumpLayout.samplesPerRepetition lump.streams := by
    unfold LumpLayout.base
    cases lump.shift with
    | left => exact Nat.mul_le_mul_right _ hrepetition
    | right => exact Nat.mul_le_mul_right _ (Nat.sub_le _ _)
  have hunits : ∀ repetition ∈ List.range lump.repetitions,
      streamsUnits largest lump.shift lump.repetitions
        (LumpLayout.samplesPerRepetition lump.streams) repetition 0 lump.streams =
          .ok (LumpLayout.repetitionUnits (lump.base repetition) lump.streams) := by
    intro repetition hrepetition
    have hlt := List.mem_range.mp hrepetition
    have hle := hbase repetition hlt.le
    exact streamsUnits_eq hlt.le (by omega)
  have hall := mapM_eq_ok_of_forall₂ (List.forall₂_map_right_iff.mpr
    (List.forall₂_same.mpr hunits))
  rw [lumpUnits, hall, ok_bind, LumpLayout.units, List.flatMap]
  rfl

end Lump

end Units

/-- The used bits are counted exactly if all of them together are a number of 64 bits. -/
theorem usedBehind_eq {packedBits : List ℕ} {repetitions used : ℕ}
    (h : used + repetitions * packedBits.sum ≤ largestWord) :
    usedBehind packedBits repetitions used = .ok (used + repetitions * packedBits.sum) := by
  induction repetitions generalizing used with
  | zero => simp [usedBehind]
  | succ repetitions ih =>
    have hsplit : used + (repetitions + 1) * packedBits.sum =
        used + packedBits.sum + repetitions * packedBits.sum := by ring
    rw [hsplit] at h ⊢
    rw [usedBehind, sumFrom_eq (by omega), ok_bind, ih h]

end BoundedPlan

namespace ChunkPlan

variable {descriptor : Descriptor} {system : System} {records entered : List StreamRecord}

/-- A laid out stream has a sample, and its samples fit into its bits. -/
theorem widths_of_layoutStream {stream : StreamDecl} {layout : StreamLayout}
    (h : layoutStream descriptor system records stream = .ok (layout, entered)) :
    layout.packedBits = stream.packedBits ∧ 1 ≤ layout.rateFactor ∧
      layout.rateFactor ≤ layout.packedBits := by
  unfold layoutStream at h
  split at h
  · cases h
  rename_i hrate
  split at h
  · cases h
  rename_i decoder _
  dsimp only at h
  split at h
  · cases h
  rename_i hused
  split at h
  · cases h
  split at h
  · cases h
  cases h
  -- A sample has a bit, so there are no more samples than used bits.
  have hsample : stream.rateFactor ≤ stream.rateFactor * decoder.bitWidth :=
    Nat.le_mul_of_pos_right _ decoder.bitWidth_pos
  refine ⟨rfl, Nat.one_le_iff_ne_zero.mpr hrate, ?_⟩
  dsimp only
  omega

/-- A repetition of laid out streams has their declared bits, and no more samples than bits. If
there is a stream, there is a bit. -/
theorem widths_of_layoutStreams {streams : List StreamDecl} {layouts : List StreamLayout}
    (h : layoutStreams descriptor system records streams = .ok (layouts, entered)) :
    LumpLayout.bits layouts = (streams.map (·.packedBits)).sum ∧
      LumpLayout.samplesPerRepetition layouts ≤ LumpLayout.bits layouts ∧
      (streams ≠ [] → 1 ≤ LumpLayout.bits layouts) := by
  induction streams generalizing records layouts with
  | nil =>
    cases h
    exact ⟨rfl, Nat.le_refl _, fun hnone => absurd rfl hnone⟩
  | cons stream streams ih =>
    unfold layoutStreams at h
    split at h
    · cases h
    rename_i layout between hstream
    split at h
    · cases h
    rename_i rest further hrest
    cases h
    obtain ⟨hpacked, hpositive, hsamples⟩ := widths_of_layoutStream hstream
    obtain ⟨hbits, hothers, -⟩ := ih hrest
    have hbitsCons : LumpLayout.bits (layout :: rest) =
        layout.packedBits + LumpLayout.bits rest := rfl
    have hsamplesCons : LumpLayout.samplesPerRepetition (layout :: rest) =
        layout.rateFactor + LumpLayout.samplesPerRepetition rest := rfl
    have hdeclared : ((stream :: streams).map (·.packedBits)).sum =
        stream.packedBits + (streams.map (·.packedBits)).sum := rfl
    rw [hbitsCons, hsamplesCons, hdeclared]
    exact ⟨by omega, by omega, fun _ => by omega⟩

variable {capacity index : ℕ} {padded : Bool}

/-- The repetitions of a laid out lump take no more bits than there are. -/
theorem consumed_le_of_layoutLump {lump : LumpDecl} {layout : LumpLayout}
    (h : layoutLump descriptor system capacity padded records index lump =
      .ok (layout, entered)) : layout.consumed ≤ capacity := by
  unfold layoutLump at h
  split at h
  · cases h
  split at h
  · cases h
  dsimp only at h
  split at h
  · cases h
  split at h
  · cases h
  cases h
  exact Nat.div_mul_le_self _ _

/-- No stream is refused for a lump without bits. -/
theorem layoutStream_ne_zeroBitLump (stream : StreamDecl) (lump : ℕ) :
    layoutStream descriptor system records stream ≠ .error (.zeroBitLump lump) := by
  intro h
  unfold layoutStream at h
  split at h
  · cases h
  split at h
  · cases h
  dsimp only at h
  split at h
  · cases h
  split at h
  · cases h
  split at h
  · rename_i error herror
    cases h
    unfold streamIndex at herror
    split at herror
    · cases herror
    split at herror
    · cases herror
    split at herror <;> cases herror
  · cases h

/-- No streams are refused for a lump without bits. -/
theorem layoutStreams_ne_zeroBitLump (streams : List StreamDecl) (lump : ℕ) :
    layoutStreams descriptor system records streams ≠ .error (.zeroBitLump lump) := by
  induction streams generalizing records with
  | nil => exact nofun
  | cons stream streams ih =>
    intro h
    unfold layoutStreams at h
    split at h
    · rename_i error herror
      cases h
      exact layoutStream_ne_zeroBitLump stream lump herror
    split at h
    · rename_i error herror
      cases h
      exact ih herror
    · cases h

/-- No lump is refused for having no bits: if it has a stream, it has a sample, which has a bit. -/
theorem layoutLump_ne_zeroBitLump (lump : LumpDecl) (place : ℕ) :
    layoutLump descriptor system capacity padded records index lump ≠
      .error (.zeroBitLump place) := by
  intro h
  unfold layoutLump at h
  split at h
  · cases h
  rename_i hstreams
  split at h
  · rename_i error herror
    cases h
    exact layoutStreams_ne_zeroBitLump lump.streams place herror
  rename_i layouts further hlayouts
  have hnonempty : lump.streams ≠ [] := fun hnil => hstreams (List.isEmpty_iff.mpr hnil)
  have hbits := (widths_of_layoutStreams hlayouts).2.2 hnonempty
  dsimp only at h
  split at h
  · rename_i hzero
    rw [hzero] at hbits
    cases hbits
  split at h <;> cases h

/-- No lumps are refused for having no bits. -/
theorem layoutLumps_ne_zeroBitLump (lumps : List LumpDecl) (place : ℕ) :
    layoutLumps descriptor system capacity padded records index lumps ≠
      .error (.zeroBitLump place) := by
  induction lumps generalizing records index with
  | nil => exact nofun
  | cons lump lumps ih =>
    intro h
    unfold layoutLumps at h
    split at h
    · rename_i error herror
      cases h
      exact layoutLump_ne_zeroBitLump lump place herror
    split at h
    · rename_i error herror
      cases h
      exact ih herror
    · cases h

/-- No chunk is refused for a lump without bits. -/
theorem build_ne_zeroBitLump (chunk : ChunkDecl) (place : ℕ) :
    build descriptor system chunk ≠ .error (.zeroBitLump place) := by
  intro h
  unfold build at h
  split at h
  · rename_i error herror
    cases h
    unfold WordSize.ofBytes at herror
    split at herror <;> cases herror
  split at h
  · cases h
  split at h
  · cases h
  split at h
  · rename_i error herror
    cases h
    exact layoutLumps_ne_zeroBitLump chunk.lumps place herror
  split at h
  · rename_i error herror
    cases h
    unfold fill at herror
    split at herror
    · cases herror
    split at herror
    · cases herror
    split at herror <;> cases herror
  · cases h

end ChunkPlan

namespace BoundedPlan

section Layout

variable {descriptor : Descriptor} {system : System} {records : List StreamRecord}

/-- A stream whose rate factor has 32 bits is laid out exactly. -/
theorem layoutStream_eq {stream : StreamDecl} (hrate : stream.rateFactor < 2 ^ 32) :
    layoutStream descriptor system records stream =
      (ChunkPlan.layoutStream descriptor system records stream).mapError .refused := by
  unfold layoutStream ChunkPlan.layoutStream
  by_cases hzero : stream.rateFactor = 0
  · simp only [if_pos hzero]
    rfl
  simp only [if_neg hzero]
  cases Decoder.ofWidth? stream.format stream.encoding stream.quantization with
  | none => rfl
  | some decoder =>
    have hwidth : decoder.bitWidth ≤ 128 := by
      have hquantization := decoder.quantization_bounds.2
      unfold Decoder.bitWidth SampleFormat.components
      split <;> omega
    have hused : stream.rateFactor * decoder.bitWidth ≤ largestWord :=
      (Nat.mul_le_mul hrate.le hwidth).trans (by decide)
    dsimp only
    rw [mul_eq hused, ok_bind]
    by_cases hunderpacked : stream.packedBits < stream.rateFactor * decoder.bitWidth
    · simp only [if_pos hunderpacked]
      rfl
    simp only [if_neg hunderpacked, sub_eq (Nat.le_of_not_lt hunderpacked), ok_bind,
      Nat.sub_pos_iff_lt]
    by_cases hunaligned : stream.rateFactor * decoder.bitWidth < stream.packedBits ∧
        stream.alignment = .undefined
    · simp only [if_pos hunaligned]
      rfl
    simp only [if_neg hunaligned]
    cases ChunkPlan.streamIndex descriptor system records stream <;> rfl

/-- Streams whose rate factors have 32 bits are laid out exactly. -/
theorem layoutStreams_eq {streams : List StreamDecl}
    (hrates : ∀ stream ∈ streams, stream.rateFactor < 2 ^ 32) :
    layoutStreams descriptor system records streams =
      (ChunkPlan.layoutStreams descriptor system records streams).mapError .refused := by
  induction streams generalizing records with
  | nil => rfl
  | cons stream streams ih =>
    obtain ⟨hrate, hothers⟩ := List.forall_mem_cons.mp hrates
    unfold layoutStreams ChunkPlan.layoutStreams
    rw [layoutStream_eq hrate]
    cases ChunkPlan.layoutStream descriptor system records stream with
    | error error => rfl
    | ok laid =>
      simp only [Except.mapError, ok_bind, ih hothers]
      cases ChunkPlan.layoutStreams descriptor system laid.2 streams <;> rfl

variable {capacity : ℕ} {padded : Bool} {largestOrder : ℕ → ℕ → ℕ}

/-- What is built of a plan behind a laid out lump. -/
def Progress.behind (progress : Progress) (laid : LumpLayout × List StreamRecord) : Progress where
  units := progress.units ++ laid.1.units
  records := laid.2
  used := progress.used + laid.1.consumed

/-- A lump is added exactly if its bits, the bits of all repetitions and the call orders are in the
range. -/
theorem addLump_eq {progress : Progress} {index : ℕ} {lump : LumpDecl}
    (hrates : ∀ stream ∈ lump.streams, stream.rateFactor < 2 ^ 32)
    (hbits : lump.bits ≤ largestWord) (hused : progress.used + capacity ≤ largestWord)
    (horders : ∀ repetitions samples, repetitions * samples ≤ capacity → samples ≤ lump.bits →
      repetitions * samples + samples ≤ largestOrder repetitions samples) :
    addLump descriptor system largestOrder capacity padded progress index lump =
      ((ChunkPlan.layoutLump descriptor system capacity padded progress.records index
        lump).mapError .refused).map progress.behind := by
  unfold addLump ChunkPlan.layoutLump
  by_cases hempty : lump.streams.isEmpty = true
  · simp only [if_pos hempty]
    rfl
  simp only [if_neg hempty, layoutStreams_eq hrates]
  cases hlayouts : ChunkPlan.layoutStreams descriptor system progress.records lump.streams with
  | error error => rfl
  | ok laid =>
    rcases laid with ⟨layouts, records⟩
    obtain ⟨hdeclared, hsamples, -⟩ := ChunkPlan.widths_of_layoutStreams hlayouts
    have hlump : LumpLayout.bits layouts = lump.bits := hdeclared
    have hsum : sumFrom 0 (layouts.map (·.packedBits)) = .ok (LumpLayout.bits layouts) := by
      have hexact : 0 + (layouts.map (·.packedBits)).sum ≤ largestWord := by
        rw [Nat.zero_add]
        exact hlump.le.trans hbits
      rw [sumFrom_eq hexact, Nat.zero_add]
      rfl
    have hrate : sumFrom 0 (layouts.map (·.rateFactor)) =
        .ok (LumpLayout.samplesPerRepetition layouts) := by
      have hexact : 0 + (layouts.map (·.rateFactor)).sum ≤ largestWord := by
        rw [Nat.zero_add]
        exact (hsamples.trans hlump.le).trans hbits
      rw [sumFrom_eq hexact, Nat.zero_add]
      rfl
    simp only [Except.mapError, ok_bind, hsum]
    by_cases hzero : LumpLayout.bits layouts = 0
    · simp only [if_pos hzero]
      rfl
    have hmod : mod capacity (LumpLayout.bits layouts) =
        .ok (capacity % LumpLayout.bits layouts) := if_neg hzero
    have hdiv : div capacity (LumpLayout.bits layouts) =
        .ok (capacity / LumpLayout.bits layouts) := if_neg hzero
    simp only [if_neg hzero, hmod, ok_bind]
    by_cases hrest : capacity % LumpLayout.bits layouts ≠ 0 ∧ padded = false
    · simp only [if_pos hrest]
      rfl
    simp only [if_neg hrest, hdiv, hrate, ok_bind]
    -- All repetitions take no more bits than the chunk has, and have no more samples than bits.
    generalize hrepetitions : capacity / LumpLayout.bits layouts = repetitions
    have htaken : repetitions * LumpLayout.bits layouts ≤ capacity := by
      rw [← hrepetitions]
      exact Nat.div_mul_le_self _ _
    have hgiven : repetitions * LumpLayout.samplesPerRepetition layouts ≤ capacity :=
      (Nat.mul_le_mul_left _ hsamples).trans htaken
    have hunits := @lumpUnits_eq _ ⟨lump.shift, layouts, repetitions⟩
      (horders repetitions _ hgiven (hsamples.trans hlump.le))
    have hcounted : usedBehind (layouts.map (·.packedBits)) repetitions progress.used =
        .ok (progress.used + repetitions * LumpLayout.bits layouts) :=
      usedBehind_eq ((Nat.add_le_add_left htaken _).trans hused)
    dsimp only at hunits
    rw [hunits, ok_bind, hcounted]
    rfl

/-- Lumps are added exactly if the bits of each of them, the bits of all chunks of this size that
they could fill, and the call orders are in the range. -/
theorem addLumps_eq {progress : Progress} {index : ℕ} {lumps : List LumpDecl}
    (hrates : ∀ lump ∈ lumps, ∀ stream ∈ lump.streams, stream.rateFactor < 2 ^ 32)
    (hbits : ∀ lump ∈ lumps, lump.bits ≤ largestWord)
    (hused : progress.used + lumps.length * capacity ≤ largestWord)
    (horders : ∀ lump ∈ lumps, ∀ repetitions samples, repetitions * samples ≤ capacity →
      samples ≤ lump.bits → repetitions * samples + samples ≤ largestOrder repetitions samples) :
    addLumps descriptor system largestOrder capacity padded progress index lumps =
      ((ChunkPlan.layoutLumps descriptor system capacity padded progress.records index
        lumps).mapError .refused).map fun laid =>
          ⟨progress.units ++ laid.1.flatMap (·.units), laid.2,
            progress.used + (laid.1.map (·.consumed)).sum⟩ := by
  induction lumps generalizing progress index with
  | nil =>
    simp only [addLumps, ChunkPlan.layoutLumps, Except.mapError, Except.map, List.flatMap_nil,
      List.append_nil, List.map_nil]
    rfl
  | cons lump lumps ih =>
    obtain ⟨hrate, hrates⟩ := List.forall_mem_cons.mp hrates
    obtain ⟨hbit, hbits⟩ := List.forall_mem_cons.mp hbits
    obtain ⟨horder, horders⟩ := List.forall_mem_cons.mp horders
    rw [List.length_cons, Nat.succ_mul] at hused
    unfold addLumps ChunkPlan.layoutLumps
    rw [addLump_eq hrate hbit (by omega) horder]
    cases hlaid : ChunkPlan.layoutLump descriptor system capacity padded progress.records index
      lump with
    | error error => rfl
    | ok laid =>
      have hconsumed : laid.1.consumed ≤ capacity := ChunkPlan.consumed_le_of_layoutLump hlaid
      have hbehind : (progress.behind laid).used + lumps.length * capacity ≤ largestWord := by
        simp only [Progress.behind]
        omega
      simp only [Except.mapError, Except.map, ok_bind, ih hrates hbits hbehind horders]
      simp only [Progress.behind]
      cases ChunkPlan.layoutLumps descriptor system capacity padded laid.2 (index + 1) lumps with
      | error error => rfl
      | ok later =>
        simp only [List.flatMap_cons, List.map_cons, List.append_assoc,
          List.sum_cons, Nat.add_assoc]

/-- The rest of a chunk is never negative. -/
theorem fill_eq (padding : Padding) (progress : Progress) :
    fill capacity padding progress =
      (ChunkPlan.fill padding capacity progress.used progress.units).mapError .refused := by
  unfold fill ChunkPlan.fill
  by_cases hover : capacity < progress.used
  · simp only [if_pos hover]
    rfl
  have hspare : sub capacity progress.used = .ok (capacity - progress.used) :=
    sub_eq (Nat.le_of_not_lt hover)
  have hfull : capacity - progress.used = 0 ↔ progress.used = capacity := by omega
  simp only [if_neg hover, hspare, ok_bind, hfull]
  by_cases hnone : progress.used = capacity
  · simp only [if_pos hnone]
    rfl
  simp only [if_neg hnone]
  cases padding <;> rfl

/-- A chunk is planned exactly if the bits of each lump, the bits of all its lumps, and the call
orders are in the range. -/
theorem build_eq {chunk : ChunkDecl}
    (hrates : ∀ lump ∈ chunk.lumps, ∀ stream ∈ lump.streams, stream.rateFactor < 2 ^ 32)
    (hbits : ∀ lump ∈ chunk.lumps, lump.bits ≤ largestWord)
    (hused : chunk.lumps.length * chunk.capacity ≤ largestWord)
    (horders : ∀ lump ∈ chunk.lumps, ∀ repetitions samples,
      repetitions * samples ≤ chunk.capacity → samples ≤ lump.bits →
        repetitions * samples + samples ≤ largestOrder repetitions samples) :
    build descriptor system largestOrder chunk =
      (ChunkPlan.build descriptor system chunk).mapError .refused := by
  unfold build ChunkPlan.build
  cases WordSize.ofBytes chunk.sizeWord with
  | error error => rfl
  | ok wordSize =>
    simp only [Except.mapError, ok_bind]
    by_cases hcount : chunk.countWords = 0
    · simp only [if_pos hcount]
      rfl
    simp only [if_neg hcount]
    cases hsize : chunk.capacityBits? with
    | none => rfl
    | some capacity =>
      obtain ⟨rfl, -⟩ := ChunkDecl.capacityBits?_eq_some_iff.mp hsize
      have hstart : ({} : Progress).used + chunk.lumps.length * chunk.capacity ≤ largestWord := by
        rw [Nat.zero_add]
        exact hused
      simp only [addLumps_eq hrates hbits hstart horders]
      cases ChunkPlan.layoutLumps descriptor system chunk.capacity (chunk.padding != .none) [] 0
        chunk.lumps with
      | error error => rfl
      | ok laid =>
        simp only [Except.mapError, Except.map, ok_bind, fill_eq, List.nil_append, Nat.zero_add]
        cases ChunkPlan.fill chunk.padding chunk.capacity (laid.1.map (·.consumed)).sum
          (laid.1.flatMap (·.units)) <;> rfl

end Layout

end BoundedPlan

namespace ChunkPlan

/-- A chunk whose lumps could use less than `2 ^ 63` bits, each with less than `2 ^ 62` bits in a
repetition, is planned with numbers of 64 bits as with exact ones, and its call orders stay within
one repetition behind the end of their lump. No lump is refused for having no bits: a repetition has
a bit, and no more samples than bits. Rate factors have 32 bits. -/
theorem build_exact (descriptor : Descriptor) (system : System) {chunk : ChunkDecl}
    (hcapacity : chunk.lumps.length * chunk.capacity < 2 ^ 63)
    (hbits : ∀ lump ∈ chunk.lumps, lump.bits < 2 ^ 62)
    (hrates : ∀ lump ∈ chunk.lumps, ∀ stream ∈ lump.streams, stream.rateFactor < 2 ^ 32) :
    BoundedPlan.build descriptor system BoundedPlan.orderWord chunk =
        (build descriptor system chunk).mapError .refused ∧
      BoundedPlan.build descriptor system BoundedPlan.orderEnd chunk =
        (build descriptor system chunk).mapError .refused ∧
      (∀ index, build descriptor system chunk ≠ .error (.zeroBitLump index)) ∧
      ∀ lump ∈ chunk.lumps, lump.streams ≠ [] → ∀ records layouts entered,
        layoutStreams descriptor system records lump.streams = .ok (layouts, entered) →
          1 ≤ LumpLayout.bits layouts ∧
            LumpLayout.samplesPerRepetition layouts ≤ LumpLayout.bits layouts := by
  have hword : BoundedPlan.largestWord = 2 ^ 64 - 1 := rfl
  have hbitsWord : ∀ lump ∈ chunk.lumps, lump.bits ≤ BoundedPlan.largestWord := by
    intro lump hlump
    have hlt := hbits lump hlump
    omega
  have hused : chunk.lumps.length * chunk.capacity ≤ BoundedPlan.largestWord := by omega
  -- The lump with the order is one of the lumps that are counted.
  have hchunk : ∀ lump ∈ chunk.lumps, chunk.capacity < 2 ^ 63 := fun lump hlump =>
    (Nat.le_mul_of_pos_left _ (List.length_pos_of_mem hlump)).trans_lt hcapacity
  have horders : ∀ lump ∈ chunk.lumps, ∀ repetitions samples,
      repetitions * samples ≤ chunk.capacity → samples ≤ lump.bits →
        repetitions * samples + samples ≤ BoundedPlan.orderWord repetitions samples := by
    intro lump hlump repetitions samples hall hone
    have hfits := hchunk lump hlump
    have hlt := hbits lump hlump
    change _ ≤ BoundedPlan.largestWord
    omega
  refine ⟨BoundedPlan.build_eq hrates hbitsWord hused horders,
    BoundedPlan.build_eq hrates hbitsWord hused fun _ _ _ _ _ _ => Nat.le_refl _,
    build_ne_zeroBitLump chunk, ?_⟩
  intro lump _ hstreams records layouts entered hlayouts
  obtain ⟨-, hsamples, hpositive⟩ := widths_of_layoutStreams hlayouts
  exact ⟨hpositive hstreams, hsamples⟩

/-- Two repetitions of a lump are numbered downwards, and so is a stream of it: its first call order
is the end of the range, and one less would be too little. -/
def countdownChunk : ChunkDecl where
  sizeWord := 1
  lumps := [{
    shift := .right
    streams := [{ id := "A", rateFactor := 4, packedBits := 4, shift := .right, encoding := .sign
                  quantization := 1, bands := ["L"] }] }]

/-- The countdown stays within its range, and reaches the end of it. -/
theorem build_exact_of_countdown :
    (∃ plan, build packedDescriptor {} countdownChunk = .ok plan ∧
      plan.units.filterMap (·.callOrder?) = [12, 11, 10, 9, 8, 7, 6, 5] ∧
      BoundedPlan.build packedDescriptor {} BoundedPlan.orderWord countdownChunk = .ok plan ∧
      BoundedPlan.build packedDescriptor {} BoundedPlan.orderEnd countdownChunk = .ok plan) ∧
    BoundedPlan.build packedDescriptor {} (fun _ _ => 11) countdownChunk = .error .outOfRange := by
  obtain ⟨plan, hplan, horders⟩ : ∃ plan, build packedDescriptor {} countdownChunk = .ok plan ∧
      plan.units.filterMap (·.callOrder?) = [12, 11, 10, 9, 8, 7, 6, 5] := ⟨_, rfl, by decide⟩
  obtain ⟨hwords, hends, -⟩ := build_exact packedDescriptor {}
    (show countdownChunk.lumps.length * countdownChunk.capacity < 2 ^ 63 by decide)
    (by decide) (by decide)
  rw [hplan] at hwords hends
  exact ⟨⟨plan, hplan, horders, hwords, hends⟩, rfl⟩

end ChunkPlan

end SampleDemux
