import SampleDemux.Proofs.ChunkExecution
import SampleDemux.Proofs.Demultiplexer

/-!
# How many bytes are left tells how a cycle comes out

A cycle is completed, finds the end of the input, or is cut, and which of the three depends on
nothing but the number of bytes that are left: as many as the cycle has, none, or any other number.
A cycle that is cut names the first of its regions that the bytes do not fill, wherever the regions
without bytes stand. What the bytes are only matters for the samples.
-/

namespace SampleDemux

/-- The region that is cut: those before it are filled, and the bytes that are left do not fill
it. -/
theorem exists_regions_of_cut {sizes : List ℕ} {available size got : ℕ}
    (h : cutRegion sizes available = some (size, got)) :
    ∃ before after, sizes = before ++ size :: after ∧ before.sum + got = available ∧
      got < size := by
  induction sizes generalizing available with
  | nil => cases h
  | cons first sizes ih =>
    rw [cutRegion] at h
    by_cases hfirst : first ≤ available
    · rw [if_pos hfirst] at h
      obtain ⟨before, after, rfl, hsum, hgot⟩ := ih h
      refine ⟨first :: before, after, rfl, ?_, hgot⟩
      rw [List.sum_cons]
      omega
    · rw [if_neg hfirst] at h
      cases h
      exact ⟨[], sizes, rfl, Nat.zero_add _, Nat.lt_of_not_le hfirst⟩

/-- Samples of a cycle. -/
def BlockPlan.sampleCount (plan : BlockPlan) : ℕ := (plan.chunks.map (·.sampleCount)).sum

/-- Chunks that are there emit as many samples as they count. -/
theorem length_chunkEmissions {plans : List ChunkPlan} (hbuilt : ∀ plan ∈ plans, plan.IsBuilt)
    {data : List UInt8} (hdata : (plans.map (·.sizeBytes)).sum ≤ data.length) :
    (chunkEmissions plans data).length = (plans.map (·.sampleCount)).sum := by
  induction plans generalizing data with
  | nil => rfl
  | cons plan plans ih =>
    have hplan := hbuilt plan List.mem_cons_self
    have hothers := fun other hother => hbuilt other (List.mem_cons_of_mem plan hother)
    rw [List.map_cons, List.sum_cons] at hdata
    have hrest : (plans.map (·.sizeBytes)).sum ≤ (data.drop plan.sizeBytes).length := by
      rw [List.length_drop]
      omega
    rw [chunkEmissions, if_pos (by omega), List.length_append, hplan.length_emissions,
      ih hothers hrest, List.map_cons, List.sum_cons]

namespace BlockPlan

variable {W S : Type} {kind : SinkKind W S} {registry : Registry W S} {descriptor : Descriptor}
  {system : System} {block : BlockDecl} {plan : BlockPlan} {source : ByteSource} {position : ℕ}
  {data : List UInt8}

/-- What a cycle of a block comes to by the bytes that are left, for the sinks of a registry. -/
structure EndsByBytesLeft (plan : BlockPlan) (kind : SinkKind W S) (runner : BlockRunner)
    (lane : String) (source : ByteSource) (position : ℕ) (data : List UInt8)
    (current : Registry W S) : Prop where
  /-- Without bytes the cycle finds the end of the input, and delivers nothing. -/
  nothing : data = [] → ∃ behind, behind.Serves position [] ∧
    (runner.runCycle lane source).run kind current = ((.ok .endOfInput, behind), current)
  /-- With all its bytes it is completed: the sinks are given the samples of its chunks, as many as
  the plan counts, and the source stands behind the bytes of the cycle. -/
  whole : plan.size ≤ data.length → ∃ deliveries behind,
    List.Forall₂ current.Addresses (plan.emissions data) deliveries ∧
    deliveries.length = plan.sampleCount ∧
    behind.Serves (position + plan.size) (data.drop plan.size) ∧
    (runner.runCycle lane source).run kind current =
      ((.ok (.completed plan.size plan.sampleCount), behind), current.consumeAll kind deliveries)
  /-- With any other bytes it is cut. The error names the first region that they do not fill, by
  where it starts, its size and what is there of it; the source is at its end. -/
  cut : data ≠ [] → data.length < plan.size →
    ∃ before size after got deliveries behind, plan.regions = before ++ size :: after ∧
      before.sum + got = data.length ∧ got < size ∧
      List.Forall₂ current.Addresses (plan.emissions data) deliveries ∧
      behind.Serves (position + data.length) [] ∧
      (runner.runCycle lane source).run kind current =
        ((.error (.source lane (.truncated (position + before.sum) size got)), behind),
          current.consumeAll kind deliveries)

/-- A built block that is given sinks that never fail, and a cycle of it over a source that never
fails, at any position and with any bytes left. The sinks may have taken samples before, and others
may have been made beside them. The cycle has as many bytes as its header, its chunks and its footer
together, which is what is counted for it as long as positions have 64 bits, and how it ends depends
on the number of bytes that are left. -/
theorem runCycle_by_bytes_left (hplan : build descriptor system block = .ok plan)
    (hkind : kind.NeverFails) (hregistry : registry.Sound)
    (hserves : source.Serves position data) (lane : String) :
    ∃ runner attached, BlockRunner.attach kind plan registry = (.ok runner, attached) ∧
      plan.size = plan.sizeHeader + (plan.chunks.map (·.sizeBytes)).sum + plan.sizeFooter ∧
      (position + plan.size < sizeLimit → plan.cycleBytes = plan.size) ∧
      ∀ current : Registry W S, attached.Grows current → current.Sound →
        plan.EndsByBytesLeft kind runner lane source position data current := by
  have hbuilt := isBuilt_of_build hplan
  obtain ⟨runner, attached, hattach, -, -, hattached⟩ :=
    BlockRunner.attach_attaches hkind plan registry hregistry
  refine ⟨runner, attached, hattach, plan.size_eq, fun hposition => ?_,
    fun current hgrows hsound => ?_⟩
  · rw [cycleBytes_eq]
    omega
  constructor
  case nothing =>
    rintro rfl
    obtain ⟨behind, hcycle, hbehind⟩ :=
      hattached.runCycle_end lane hbuilt.chunks hbuilt.size_pos hserves
    exact ⟨behind, hbehind, by rw [hcycle, Process.run]⟩
  case whole =>
    intro hsize
    obtain ⟨deliveries, behind, hdeliveries, hcycle, hbehind⟩ :=
      (hattached.mono hgrows).runCycle_full lane hbuilt.chunks hserves hsize
    have hchunks : (plan.chunks.map (·.sizeBytes)).sum ≤ (data.drop plan.sizeHeader).length := by
      have hparts := plan.size_eq
      rw [footerStart] at hparts
      rw [List.length_drop]
      omega
    have hcount : deliveries.length = plan.sampleCount := by
      rw [← hdeliveries.length_eq, emissions, length_chunkEmissions hbuilt.chunks hchunks,
        sampleCount]
    have hsinks : ∀ delivery ∈ deliveries, delivery.sink < current.made.length :=
      forall_mem_of_forall₂ hdeliveries fun _ _ haddresses => haddresses.sink_lt hsound
    rw [hcount] at hcycle
    exact ⟨deliveries, behind, hdeliveries, hcount, hbehind, hcycle.run hkind hsinks⟩
  case cut =>
    intro hdata hsize
    cases hcut : cutRegion plan.regions data.length with
    | none =>
      have hfilled := (cutRegion_eq_none_iff _ _).mp hcut
      rw [size] at hsize
      omega
    | some region =>
      obtain ⟨size, got⟩ := region
      obtain ⟨before, after, hregions, hsum, hgot⟩ := exists_regions_of_cut hcut
      obtain ⟨deliveries, behind, hdeliveries, hcycle, hbehind⟩ :=
        (hattached.mono hgrows).runCycle_cut lane hbuilt.chunks hserves hdata hcut
      have hstart : position + data.length - got = position + before.sum := by omega
      have hsinks : ∀ delivery ∈ deliveries, delivery.sink < current.made.length :=
        forall_mem_of_forall₂ hdeliveries fun _ _ haddresses => haddresses.sink_lt hsound
      rw [hstart] at hcycle
      exact ⟨before, size, after, got, deliveries, behind, hregions, hsum, hgot, hdeliveries,
        hbehind, hcycle.run hkind hsinks⟩

end BlockPlan

/-- A block of the packed chunk between a header byte and a footer byte. -/
def headedBlock : BlockDecl where
  sizeHeader := 1
  sizeFooter := 1
  chunks := [packedChunk]

/-- The block comes to the end of no bytes, is completed by 8 bytes, and misses its footer in 7. -/
theorem BlockPlan.runCycle_by_bytes_left_of_headedBlock :
    ∃ plan runner attached,
      build packedDescriptor {} headedBlock = .ok plan ∧ plan.cycleBytes = 8 ∧
      BlockRunner.attach MemorySink.kind plan { world := () } = (.ok runner, attached) ∧
      ((runner.runCycle "P" (.ofBytes [])).run MemorySink.kind attached).1.1 = .ok .endOfInput ∧
      ((runner.runCycle "P" (.ofBytes [1, 2, 3, 4, 5, 6, 7, 8])).run MemorySink.kind
        attached).1.1 = .ok (.completed 8 12) ∧
      ((runner.runCycle "P" (.ofBytes [1, 2, 3, 4, 5, 6, 7])).run MemorySink.kind attached).1.1 =
        .error (.source "P" (.truncated 7 1 0)) := by
  obtain ⟨plan, hplan, hbytes, hsize, hcount, hregions⟩ :
      ∃ plan, build packedDescriptor {} headedBlock = .ok plan ∧ plan.cycleBytes = 8 ∧
        plan.size = 8 ∧ plan.sampleCount = 12 ∧ plan.regions = [1, 6, 1] :=
    ⟨_, rfl, rfl, rfl, rfl, rfl⟩
  have hregistry := Registry.sound_of_world (S := MemorySink) ()
  have hcycle := fun data => runCycle_by_bytes_left hplan MemorySink.kind_neverFails hregistry
    (ByteSource.serves_ofBytes data) "P"
  obtain ⟨runner, attached, hattach, -, -, hends⟩ := hcycle []
  obtain ⟨_, _, hwhole, -, -, hcompletes⟩ := hcycle [1, 2, 3, 4, 5, 6, 7, 8]
  obtain ⟨_, _, hpart, -, -, hcuts⟩ := hcycle [1, 2, 3, 4, 5, 6, 7]
  cases hattach.symm.trans hwhole
  cases hattach.symm.trans hpart
  have hsound : attached.Sound :=
    (BlockRunner.attach_attachesOk MemorySink.kind plan _ _ _ (.of_empty rfl rfl) hattach).1.sound
  obtain ⟨_, -, hend⟩ := (hends attached (.refl _) hsound).nothing rfl
  obtain ⟨_, _, -, -, -, hcompleted⟩ := (hcompletes attached (.refl _) hsound).whole hsize.le
  obtain ⟨before, size, after, got, _, _, hparts, hsum, hgot, -, -, hcut⟩ :=
    (hcuts attached (.refl _) hsound).cut (List.cons_ne_nil _ _) (by rw [hsize]; decide)
  rw [hsize, hcount] at hcompleted
  -- The header and the chunk are 7 bytes, so the footer is the region that is cut.
  obtain ⟨rfl, rfl, rfl⟩ : before = [1, 6] ∧ size = 1 ∧ got = 0 := by
    rw [hregions] at hparts
    simp only [List.length_cons, List.length_nil] at hsum
    rcases before with _ | ⟨first, _ | ⟨second, _ | ⟨third, before⟩⟩⟩
    · simp at hparts hsum
      omega
    · simp at hparts hsum
      omega
    · simp at hparts hsum ⊢
      omega
    · simp at hparts
  exact ⟨plan, runner, attached, hplan, hbytes, hattach, by rw [hend], by rw [hcompleted],
    by rw [hcut]; rfl⟩

end SampleDemux
