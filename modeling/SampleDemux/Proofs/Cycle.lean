import SampleDemux.Proofs.Extraction
import SampleDemux.Proofs.FaultFree
import SampleDemux.Proofs.Delivery
import SampleDemux.Proofs.Schedule

/-!
# The cycles of a block on bytes

What a cycle emits is a function of the bytes that it begins with: the header is left out, and every
chunk that is there in full emits its samples, read from the number of its words and in the order of
their call numbers. Against this the execution is set, over a source that never fails and with sinks
that take every sample: it delivers what is emitted and ends with the cycle's totals, at the end of
the input, or with the first region that the bytes do not fill.
-/

namespace SampleDemux

namespace ChunkPlan

/-- The plan was built from a declaration. -/
def IsBuilt (plan : ChunkPlan) : Prop :=
  ∃ descriptor system chunk, build descriptor system chunk = .ok plan

/-- What a unit emits, its components read from the number of the words; unused bits emit
nothing. -/
def emissionAt (plan : ChunkPlan) (data : List UInt8) (index : ℕ) : Option Emission :=
  match plan.units[index]? with
  | some ⟨_, .sample stream decoder _⟩ =>
    match plan.streams[stream]?,
      decoder.format.sampleByName
        ((List.range decoder.format.components).map fun component =>
          decoder.component (plan.rawComponent (plan.number data) (plan.startOf index)
            decoder.quantization component)) with
    | some record, some sample => some ⟨record.id, sample⟩
    | _, _ => none
  | _ => none

/-- What the bytes of a chunk emit, in the order in which samples are handed on. -/
def emissions (plan : ChunkPlan) (data : List UInt8) : List Emission :=
  plan.dispatchOrder.filterMap (plan.emissionAt data)

/-- A built plan has the layouts of its lumps. -/
theorem IsBuilt.builtFrom {plan : ChunkPlan} (h : plan.IsBuilt) :
    ∃ descriptor system chunk layouts, BuiltFrom descriptor system chunk plan layouts := by
  rcases h with ⟨descriptor, system, chunk, hbuild⟩
  rcases build_ok hbuild with ⟨layouts, hbuilt⟩
  exact ⟨descriptor, system, chunk, layouts, hbuilt⟩

/-- A built chunk has a byte. -/
theorem IsBuilt.sizeBytes_pos {plan : ChunkPlan} (h : plan.IsBuilt) : 0 < plan.sizeBytes := by
  rcases h.builtFrom with ⟨descriptor, system, chunk, layouts, hbuilt⟩
  rw [sizeBytes, hbuilt.countWords]
  exact Nat.mul_pos plan.wordSize.bytes_pos hbuilt.countWords_pos

/-- The values of a built plan are decoded from the fields of its units. -/
theorem IsBuilt.values_eq {plan : ChunkPlan} (h : plan.IsBuilt) {data : List UInt8}
    (hdata : data.length = plan.sizeBytes) :
    ChunkRunner.values plan data =
      .ok (List.zipWith PlanUnit.decode plan.units (plan.contents data)) := by
  rcases h.builtFrom with ⟨descriptor, system, chunk, layouts, hbuilt⟩
  exact hbuilt.values_eq hdata

/-- The stream of a sample of a built plan has a record. -/
theorem IsBuilt.stream_lt {plan : ChunkPlan} (h : plan.IsBuilt) {index bits stream order : ℕ}
    {decoder : Decoder}
    (hunit : plan.units[index]? = some ⟨bits, .sample stream decoder order⟩) :
    stream < plan.streams.length := by
  rcases h.builtFrom with ⟨descriptor, system, chunk, layouts, hbuilt⟩
  exact (hbuilt.wellFormed_units _ (List.mem_of_getElem? hunit)).2

/-- A sample of a built plan is emitted for its stream. -/
theorem emissionAt_of_sample {plan : ChunkPlan} {data : List UInt8} {index bits stream order : ℕ}
    {decoder : Decoder}
    (hunit : plan.units[index]? = some ⟨bits, .sample stream decoder order⟩)
    {record : StreamRecord} (hrecord : plan.streams[stream]? = some record) :
    ∃ sample,
      (List.zipWith PlanUnit.decode plan.units (plan.contents data))[index]? = some (some sample) ∧
      plan.emissionAt data index = some ⟨record.id, sample⟩ := by
  refine ⟨_, getElem?_decoded hunit, ?_⟩
  have hsample : decoder.format.sampleByName
      ((List.range decoder.format.components).map fun component =>
        decoder.component (plan.rawComponent (plan.number data) (plan.startOf index)
          decoder.quantization component)) = some _ :=
    @sampleByName_components plan (plan.number data) (plan.startOf index) bits stream order decoder
  simp only [emissionAt, hunit, hrecord, hsample]

end ChunkPlan

/-- What chunks side by side emit: every one that the bytes hold in full, up to the first that they
do not. -/
def chunkEmissions : List ChunkPlan → List UInt8 → List Emission
  | [], _ => []
  | plan :: rest, data =>
    if plan.sizeBytes ≤ data.length then
      plan.emissions (data.take plan.sizeBytes) ++ chunkEmissions rest (data.drop plan.sizeBytes)
    else []

/-- The first of several regions side by side that bytes do not fill: its size, and how many bytes
of it there are. -/
def cutRegion : List ℕ → ℕ → Option (ℕ × ℕ)
  | [], _ => none
  | size :: rest, available =>
    if size ≤ available then cutRegion rest (available - size) else some (size, available)

namespace BlockPlan

/-- Sizes of the regions of a cycle: the header, the chunks and the footer. -/
def regions (plan : BlockPlan) : List ℕ :=
  plan.sizeHeader :: (plan.chunks.map (·.sizeBytes) ++ [plan.sizeFooter])

/-- Bytes of a cycle. -/
def size (plan : BlockPlan) : ℕ := plan.regions.sum

/-- Bytes of a cycle before its footer. -/
def footerStart (plan : BlockPlan) : ℕ :=
  plan.sizeHeader + (plan.chunks.map (·.sizeBytes)).sum

/-- What a cycle emits that begins with some bytes. -/
def emissions (plan : BlockPlan) (data : List UInt8) : List Emission :=
  chunkEmissions plan.chunks (data.drop plan.sizeHeader)

end BlockPlan

namespace BlockPlan

/-- The plan was built: so were its chunks, a cycle has a byte, and no limit says zero cycles. -/
structure IsBuilt (plan : BlockPlan) : Prop where
  /-- The chunks were built. -/
  chunks : ∀ chunk ∈ plan.chunks, chunk.IsBuilt
  /-- A cycle has a byte. -/
  size_pos : 0 < plan.size
  /-- A limit says at least one cycle. -/
  cycles_ne : plan.cycles ≠ .count 0

/-- A cycle ends with its footer. -/
theorem size_eq (plan : BlockPlan) : plan.size = plan.footerStart + plan.sizeFooter := by
  simp [size, regions, footerStart, Nat.add_assoc]

/-- Adding up to a largest size is adding, and then taking the largest size if that is less. -/
theorem foldl_saturatingAdd (chunks : List ChunkPlan) (bytes : ℕ) :
    chunks.foldl (fun bytes chunk => saturatingAdd bytes chunk.sizeBytes)
        (min bytes (sizeLimit - 1)) =
      min (bytes + (chunks.map (·.sizeBytes)).sum) (sizeLimit - 1) := by
  induction chunks generalizing bytes with
  | nil => rfl
  | cons chunk chunks ih =>
    have hfirst : saturatingAdd (min bytes (sizeLimit - 1)) chunk.sizeBytes =
        min (bytes + chunk.sizeBytes) (sizeLimit - 1) := by
      unfold saturatingAdd
      omega
    rw [List.foldl_cons, hfirst, ih, List.map_cons, List.sum_cons, Nat.add_assoc]

/-- The bytes that are counted for a cycle are all its bytes, as far as a size goes. -/
theorem cycleBytes_eq (plan : BlockPlan) : plan.cycleBytes = min plan.size (sizeLimit - 1) := by
  have hfold := foldl_saturatingAdd plan.chunks (plan.sizeHeader + plan.sizeFooter)
  have hedges : saturatingAdd plan.sizeHeader plan.sizeFooter =
      min (plan.sizeHeader + plan.sizeFooter) (sizeLimit - 1) := rfl
  have hsum : plan.sizeHeader + plan.sizeFooter + (plan.chunks.map (·.sizeBytes)).sum =
      plan.size := by
    rw [size_eq, footerStart]
    omega
  rw [cycleBytes, hedges, hfold, hsum]

/-- A cycle has no fewer bytes than are counted for it. -/
theorem cycleBytes_le_size (plan : BlockPlan) : plan.cycleBytes ≤ plan.size := by
  rw [cycleBytes_eq]
  exact Nat.min_le_left _ _

/-- The chunks of a plan that was built were built, one by one. -/
theorem forall₂_of_build {descriptor : Descriptor} {system : System} {block : BlockDecl}
    {plan : BlockPlan} (h : build descriptor system block = .ok plan) :
    List.Forall₂ (fun chunk plan => ChunkPlan.build descriptor system chunk = .ok plan)
      block.chunks plan.chunks := by
  unfold build at h
  split at h
  · cases h
  rename_i chunks hchunks
  dsimp only at h
  split at h
  · cases h
  cases h
  exact forall₂_of_mapM_eq_ok hchunks

/-- A built block is one. -/
theorem isBuilt_of_build {descriptor : Descriptor} {system : System} {block : BlockDecl}
    {plan : BlockPlan} (h : build descriptor system block = .ok plan) : plan.IsBuilt := by
  have hchunks : ∀ chunk ∈ plan.chunks, chunk.IsBuilt :=
    forall_mem_of_forall₂ (forall₂_of_build h) fun chunk plan hplan =>
      ⟨descriptor, system, chunk, hplan⟩
  unfold build at h
  split at h
  · cases h
  dsimp only at h
  split at h
  · cases h
  rename_i hcycle
  cases h
  exact
    { chunks := hchunks
      size_pos := (Nat.pos_of_ne_zero hcycle).trans_le (cycleBytes_le_size _)
      cycles_ne := CycleLimit.ofCycles_ne_count_zero _ }

end BlockPlan

section Regions

/-- Regions are filled by as many bytes as they have. -/
theorem cutRegion_eq_none_iff (sizes : List ℕ) (available : ℕ) :
    cutRegion sizes available = none ↔ sizes.sum ≤ available := by
  induction sizes generalizing available with
  | nil => simp [cutRegion]
  | cons size sizes ih =>
    rw [cutRegion, List.sum_cons]
    split
    · rw [ih]
      omega
    · simp only [reduceCtorEq, false_iff]
      omega

/-- Regions behind others are cut if the others are filled. -/
theorem cutRegion_append (front back : List ℕ) (available : ℕ) :
    cutRegion (front ++ back) available =
      if front.sum ≤ available then cutRegion back (available - front.sum)
      else cutRegion front available := by
  induction front generalizing available with
  | nil => simp
  | cons size front ih =>
    rw [List.cons_append, cutRegion, cutRegion, ih, List.sum_cons]
    by_cases hsize : size ≤ available
    · rw [if_pos hsize, if_pos hsize, Nat.sub_sub]
      congr 1
      simp only [eq_iff_iff]
      omega
    · rw [if_neg hsize, if_neg hsize, if_neg (by omega)]

/-- A cycle is cut in its header, in its chunks or in its footer. -/
theorem cutRegion_regions (plan : BlockPlan) (available : ℕ) :
    cutRegion plan.regions available =
      if plan.sizeHeader ≤ available then
        if plan.footerStart ≤ available then
          if plan.size ≤ available then none
          else some (plan.sizeFooter, available - plan.footerStart)
        else cutRegion (plan.chunks.map (·.sizeBytes)) (available - plan.sizeHeader)
      else some (plan.sizeHeader, available) := by
  have hsize := plan.size_eq
  rw [BlockPlan.regions, cutRegion]
  by_cases hheader : plan.sizeHeader ≤ available
  · rw [if_pos hheader, if_pos hheader, cutRegion_append]
    rw [BlockPlan.footerStart] at hsize ⊢
    by_cases hchunks : (plan.chunks.map (·.sizeBytes)).sum ≤ available - plan.sizeHeader
    · rw [if_pos hchunks, if_pos (by omega), cutRegion, Nat.sub_sub]
      by_cases hfooter : plan.size ≤ available
      · rw [if_pos hfooter, if_pos (by omega), cutRegion]
      · rw [if_neg hfooter, if_neg (by omega)]
    · rw [if_neg hchunks, if_neg (by omega)]
  · rw [if_neg hheader, if_neg hheader]

/-- Without bytes nothing is emitted. -/
theorem chunkEmissions_nil {plans : List ChunkPlan} (h : ∀ plan ∈ plans, plan.IsBuilt) :
    chunkEmissions plans [] = [] := by
  cases plans with
  | nil => rfl
  | cons plan plans =>
    have hpos := (h plan List.mem_cons_self).sizeBytes_pos
    rw [chunkEmissions, if_neg (by simp only [List.length_nil]; omega)]

end Regions

namespace ChunkRunner

variable {W S : Type} {registry : Registry W S} {plan : ChunkPlan} {runner : ChunkRunner}
  {source : ByteSource} {position : ℕ} {data : List UInt8}

/-- An attached chunk delivers what its bytes emit. -/
theorem Attached.addresses (h : Attached registry plan runner) (hbuilt : plan.IsBuilt)
    (data : List UInt8) :
    List.Forall₂ registry.Addresses (plan.emissions data)
      (runner.deliveries (List.zipWith PlanUnit.decode plan.units (plan.contents data))) := by
  unfold ChunkPlan.emissions deliveries
  rw [h.plan_eq]
  refine List.rel_filterMap (fun index other hsame => ?_)
    (List.forall₂_same.mpr fun index _ => (rfl : index = index))
  subst hsame
  simp only [List.getElem?_toArray]
  cases hunit : plan.units[index]? with
  | none =>
    rw [List.getElem?_zipWith, ChunkPlan.emissionAt, hunit]
    exact .none
  | some unit =>
    rcases unit with ⟨bits, kind⟩
    cases kind with
    | padding =>
      rw [ChunkPlan.getElem?_decoded hunit, ChunkPlan.emissionAt, hunit]
      exact .none
    | sample stream decoder order =>
      have hrecord := List.getElem?_eq_getElem (hbuilt.stream_lt hunit)
      rcases exists_getElem?_of_forall₂ h.bindings hrecord with ⟨binding, hbinding, hbound⟩
      obtain ⟨sample, hvalue, hemission⟩ := @ChunkPlan.emissionAt_of_sample plan data _ _ _ _ _
        hunit _ hrecord
      rw [hvalue, hemission]
      simp only [PlanUnit.stream?, Option.bind_some, hbinding]
      exact .some ⟨hbound.sink, hbound.record, rfl⟩

/-- Samples that are all taken are counted. -/
theorem deliverAll_delivers (lane : String) (count : ℕ) (deliveries : List Delivery) :
    (deliverAll lane count deliveries).Delivers deliveries (.ok (count + deliveries.length)) := by
  induction deliveries generalizing count with
  | nil => exact .done _
  | cons delivery deliveries ih =>
    have hrest := ih (count + 1)
    rw [show count + 1 + deliveries.length = count + (delivery :: deliveries).length by
      rw [List.length_cons]; omega] at hrest
    exact .deliver delivery hrest

variable (lane : String)

/-- A chunk whose bytes are there delivers what they emit. -/
theorem Attached.execute_full (h : Attached registry plan runner) (hbuilt : plan.IsBuilt)
    (hserves : source.Serves position data) (hsize : plan.sizeBytes ≤ data.length) :
    ∃ deliveries behind,
      List.Forall₂ registry.Addresses (plan.emissions (data.take plan.sizeBytes)) deliveries ∧
      (runner.execute lane source).Delivers deliveries (.ok (some deliveries.length), behind) ∧
      behind.Serves (position + plan.sizeBytes) (data.drop plan.sizeBytes) := by
  rcases hserves.read_full hsize with ⟨behind, hread, hbehind⟩
  have hvalues := hbuilt.values_eq (List.length_take_of_le hsize)
  refine ⟨_, behind, h.addresses hbuilt (data.take plan.sizeBytes), ?_, hbehind⟩
  have hdelivers := (deliverAll_delivers lane 0 (runner.deliveries
    (List.zipWith PlanUnit.decode plan.units (plan.contents (data.take plan.sizeBytes))))).map
      fun outcome => (outcome.map some, behind)
  rw [Nat.zero_add] at hdelivers
  simp only [execute, ByteSource.fetchRead, ByteSource.fetch_of_file_eq_none hserves.file,
    Process.bind, executeNext, h.plan_eq, hread, hvalues]
  exact hdelivers

/-- At the end of the input a chunk delivers nothing. -/
theorem Attached.execute_end (h : Attached registry plan runner) (hbuilt : plan.IsBuilt)
    (hserves : source.Serves position []) :
    ∃ behind, runner.execute lane source = .done (.ok none, behind) ∧
      behind.Serves position [] := by
  rcases hserves.read_short hbuilt.sizeBytes_pos with ⟨behind, hread, hbehind⟩
  refine ⟨behind, ?_, hbehind⟩
  simp only [execute, ByteSource.fetchRead, ByteSource.fetch_of_file_eq_none hserves.file,
    Process.bind, executeNext, h.plan_eq, hread, List.length_nil, if_true]

/-- A chunk that is cut short delivers nothing. -/
theorem Attached.execute_cut (h : Attached registry plan runner)
    (hserves : source.Serves position data) (hdata : data ≠ [])
    (hsize : data.length < plan.sizeBytes) :
    ∃ behind, runner.execute lane source =
      .done (.error (.source lane (.truncated position plan.sizeBytes data.length)), behind) ∧
      behind.Serves (position + data.length) [] := by
  rcases hserves.read_short hsize with ⟨behind, hread, hbehind⟩
  have hlength : data.length ≠ 0 := fun hzero => hdata (List.length_eq_zero_iff.mp hzero)
  have hposition : behind.position - data.length = position := by
    rw [hbehind.position_eq, Nat.add_sub_cancel]
  refine ⟨behind, ?_, hbehind⟩
  simp only [execute, ByteSource.fetchRead, ByteSource.fetch_of_file_eq_none hserves.file,
    Process.bind, executeNext, h.plan_eq, hread, if_neg hlength, hposition]

end ChunkRunner

namespace BlockRunner

variable {W S : Type} {registry : Registry W S} {source : ByteSource} {position start size : ℕ}
  {data : List UInt8} (lane : String)

/-- A header or footer that is there is passed over. -/
theorem skipRegion_full (start : ℕ) (hserves : source.Serves position data)
    (hsize : size ≤ data.length) :
    ∃ behind, skipRegion lane size start source = .done (.ok true, behind) ∧
      behind.Serves (position + size) (data.drop size) := by
  rcases hserves.read_full hsize with ⟨behind, hread, hbehind⟩
  refine ⟨behind, ?_, hbehind⟩
  simp only [skipRegion, ByteSource.fetchSkip, ByteSource.fetch_of_file_eq_none hserves.file,
    Process.map, Process.bind, skipNext, ByteSource.skip, hread]

/-- A header or footer is missing if the input ends where the cycle begins. -/
theorem skipRegion_end (hserves : source.Serves start []) (hsize : 0 < size) :
    ∃ behind, skipRegion lane size start source = .done (.ok false, behind) ∧
      behind.Serves start [] := by
  rcases hserves.read_short hsize with ⟨behind, hread, hbehind⟩
  refine ⟨behind, ?_, hbehind⟩
  simp only [skipRegion, ByteSource.fetchSkip, ByteSource.fetch_of_file_eq_none hserves.file,
    Process.map, Process.bind, skipNext, ByteSource.skip, hread, List.length_nil, if_true,
    hbehind.position_eq, Nat.add_zero]

/-- A header or footer that is cut short behind the beginning of the cycle is truncated. -/
theorem skipRegion_cut (hserves : source.Serves position data) (hsize : data.length < size)
    (hbegun : data ≠ [] ∨ position ≠ start) :
    ∃ behind, skipRegion lane size start source =
      .done (.error (.source lane (.truncated position size data.length)), behind) ∧
      behind.Serves (position + data.length) [] := by
  rcases hserves.read_short hsize with ⟨behind, hread, hbehind⟩
  refine ⟨behind, ?_, hbehind⟩
  simp only [skipRegion, ByteSource.fetchSkip, ByteSource.fetch_of_file_eq_none hserves.file,
    Process.map, Process.bind, skipNext, ByteSource.skip, hread]
  by_cases hempty : data = []
  · subst hempty
    have hposition : position ≠ start := hbegun.resolve_left fun hne => hne rfl
    simp only [List.length_nil, if_true, hbehind.position_eq, Nat.add_zero, if_neg hposition]
  · have hlength : data.length ≠ 0 := fun hzero => hempty (List.length_eq_zero_iff.mp hzero)
    have hposition : behind.position - data.length = position := by
      rw [hbehind.position_eq, Nat.add_sub_cancel]
    simp only [if_neg hlength, hposition]

variable {plans : List ChunkPlan} {runners : List ChunkRunner}

/-- Chunks whose bytes are there deliver what they emit. -/
theorem runChunks_full (start : ℕ)
    (h : List.Forall₂ (ChunkRunner.Attached registry) plans runners)
    (hbuilt : ∀ plan ∈ plans, plan.IsBuilt) (hserves : source.Serves position data)
    (hsize : (plans.map (·.sizeBytes)).sum ≤ data.length) (samples : ℕ) :
    ∃ deliveries behind,
      List.Forall₂ registry.Addresses (chunkEmissions plans data) deliveries ∧
      (runChunks lane start samples runners source).Delivers deliveries
        (.ok (some (samples + deliveries.length)), behind) ∧
      behind.Serves (position + (plans.map (·.sizeBytes)).sum)
        (data.drop (plans.map (·.sizeBytes)).sum) := by
  induction h generalizing source position data samples with
  | nil => exact ⟨[], source, .nil, .done _, hserves⟩
  | @cons plan runner plans runners hrunner _ ih =>
    rcases List.forall_mem_cons.mp hbuilt with ⟨hplan, hplans⟩
    rw [List.map_cons, List.sum_cons] at hsize ⊢
    obtain ⟨first, between, hfirst, hexecute, hbetween⟩ :=
      hrunner.execute_full lane hplan hserves (by omega)
    obtain ⟨rest, behind, hrest, hrun, hbehind⟩ :=
      ih hplans hbetween (by rw [List.length_drop]; omega) (samples + first.length)
    refine ⟨first ++ rest, behind, ?_, ?_, ?_⟩
    · rw [chunkEmissions, if_pos (by omega)]
      exact List.rel_append hfirst hrest
    · rw [List.length_append, ← Nat.add_assoc]
      exact hexecute.bind hrun
    · rwa [List.drop_drop, Nat.add_assoc] at hbehind

/-- Of chunks that the bytes end in, those before deliver what they emit. -/
theorem runChunks_cut (h : List.Forall₂ (ChunkRunner.Attached registry) plans runners)
    (hbuilt : ∀ plan ∈ plans, plan.IsBuilt) (hserves : source.Serves position data)
    (hstart : start ≤ position) (hbegun : data ≠ [] ∨ position ≠ start) {got : ℕ}
    (hcut : cutRegion (plans.map (·.sizeBytes)) data.length = some (size, got)) (samples : ℕ) :
    ∃ deliveries behind,
      List.Forall₂ registry.Addresses (chunkEmissions plans data) deliveries ∧
      (runChunks lane start samples runners source).Delivers deliveries
        (.error (.source lane (.truncated (position + data.length - got) size got)), behind) ∧
      behind.Serves (position + data.length) [] := by
  induction h generalizing source position data samples with
  | nil => cases hcut
  | @cons plan runner plans runners hrunner _ ih =>
    rcases List.forall_mem_cons.mp hbuilt with ⟨hplan, hplans⟩
    have hpos := hplan.sizeBytes_pos
    rw [List.map_cons, cutRegion] at hcut
    rw [chunkEmissions]
    by_cases hfull : plan.sizeBytes ≤ data.length
    · rw [if_pos hfull] at hcut ⊢
      obtain ⟨first, between, hfirst, hexecute, hbetween⟩ :=
        hrunner.execute_full lane hplan hserves hfull
      obtain ⟨rest, behind, hrest, hrun, hbehind⟩ := ih hplans hbetween (by omega)
        (.inr (by omega)) (by rwa [List.length_drop]) (samples + first.length)
      rw [List.length_drop, Nat.add_assoc, Nat.add_sub_cancel' hfull] at hrun hbehind
      exact ⟨first ++ rest, behind, List.rel_append hfirst hrest, hexecute.bind hrun, hbehind⟩
    · rw [if_neg hfull, Option.some_inj, Prod.mk.injEq] at hcut
      rcases hcut with ⟨rfl, rfl⟩
      rw [if_neg hfull, Nat.add_sub_cancel]
      by_cases hempty : data = []
      · subst hempty
        have hposition : position ≠ start := hbegun.resolve_left fun hne => hne rfl
        rcases hrunner.execute_end lane hplan hserves with ⟨behind, hexecute, hbehind⟩
        refine ⟨[], behind, .nil, ?_, hbehind⟩
        simp only [runChunks, hexecute, Process.bind, hbehind.position_eq, if_neg hposition,
          hrunner.plan_eq]
        exact .done _
      · obtain ⟨behind, hexecute, hbehind⟩ :=
          hrunner.execute_cut lane hserves hempty (by omega)
        refine ⟨[], behind, .nil, ?_, hbehind⟩
        simp only [runChunks, hexecute, Process.bind]
        exact .done _

/-- If the input ends where the cycle begins, chunks deliver nothing. -/
theorem runChunks_end (h : List.Forall₂ (ChunkRunner.Attached registry) plans runners)
    (hbuilt : ∀ plan ∈ plans, plan.IsBuilt) (hplans : plans ≠ [])
    (hserves : source.Serves start []) (samples : ℕ) :
    ∃ behind, runChunks lane start samples runners source = .done (.ok none, behind) ∧
      behind.Serves start [] := by
  cases h with
  | nil => exact absurd rfl hplans
  | @cons plan runner plans runners hrunner _ =>
    obtain ⟨behind, hexecute, hbehind⟩ :=
      hrunner.execute_end lane (hbuilt plan List.mem_cons_self) hserves
    refine ⟨behind, ?_, hbehind⟩
    simp only [runChunks, hexecute, Process.bind, hbehind.position_eq, if_true]

/-- What a cycle does behind its chunks: it passes over the footer. -/
def passFooter (block : BlockRunner) (lane : String) (start : ℕ)
    (chunks : Except ConvertError (Option ℕ) × ByteSource) :
    Process (Except ConvertError CycleOutcome × ByteSource) :=
  match chunks with
  | (.error error, source) => .done (.error error, source)
  | (.ok none, source) => .done (.ok .endOfInput, source)
  | (.ok (some samples), source) =>
    (skipRegion lane block.sizeFooter start source).map fun
      | (.error error, source) => (.error error, source)
      | (.ok false, source) => (.ok .endOfInput, source)
      | (.ok true, source) => (.ok (.completed (source.position - start) samples), source)

variable {plan : BlockPlan} {runner : BlockRunner}

/-- Behind a header that is there a cycle reads its chunks and passes over the footer. -/
theorem runCycle_of_header {behind : ByteSource}
    (h : skipRegion lane runner.sizeHeader source.position source = .done (.ok true, behind)) :
    runner.runCycle lane source =
      (runChunks lane source.position 0 runner.chunks behind).bind
        (runner.passFooter lane source.position) := by
  rw [runCycle, h]
  rfl

/-- A footer that is there completes the cycle. -/
theorem passFooter_full (start samples : ℕ) (hserves : source.Serves position data)
    (hsize : runner.sizeFooter ≤ data.length) :
    ∃ behind, runner.passFooter lane start (.ok (some samples), source) =
      .done (.ok (.completed (position + runner.sizeFooter - start) samples), behind) ∧
      behind.Serves (position + runner.sizeFooter) (data.drop runner.sizeFooter) := by
  rcases skipRegion_full lane start hserves hsize with ⟨behind, hskip, hbehind⟩
  refine ⟨behind, ?_, hbehind⟩
  simp only [passFooter, hskip, Process.map, Process.bind, hbehind.position_eq]

/-- A footer that is cut short behind the beginning of the cycle is truncated. -/
theorem passFooter_cut (samples : ℕ) (hserves : source.Serves position data)
    (hsize : data.length < runner.sizeFooter) (hbegun : data ≠ [] ∨ position ≠ start) :
    ∃ behind, runner.passFooter lane start (.ok (some samples), source) =
      .done (.error (.source lane (.truncated position runner.sizeFooter data.length)),
        behind) ∧
      behind.Serves (position + data.length) [] := by
  rcases skipRegion_cut lane hserves hsize hbegun with ⟨behind, hskip, hbehind⟩
  refine ⟨behind, ?_, hbehind⟩
  simp only [passFooter, hskip, Process.map, Process.bind]

/-- Behind a region that is there a cycle has begun, or its bytes are still there. -/
theorem begun_of_drop (hdata : data ≠ []) (size : ℕ) :
    data.drop size ≠ [] ∨ start + size ≠ start := by
  by_cases hzero : size = 0
  · rw [hzero, List.drop_zero]
    exact .inl hdata
  · exact .inr (by omega)

/-- A cycle whose header and chunks are there delivers what they emit, and ends with its footer. -/
theorem Attached.runCycle_footer (h : BlockRunner.Attached registry plan runner)
    (hbuilt : ∀ chunk ∈ plan.chunks, chunk.IsBuilt) (hserves : source.Serves position data)
    (hthere : plan.footerStart ≤ data.length) :
    ∃ deliveries behind,
      List.Forall₂ registry.Addresses (plan.emissions data) deliveries ∧
      (∀ final,
        runner.passFooter lane position (.ok (some deliveries.length), behind) = .done final →
        (runner.runCycle lane source).Delivers deliveries final) ∧
      behind.Serves (position + plan.footerStart) (data.drop plan.footerStart) := by
  obtain rfl := hserves.position_eq
  rw [BlockPlan.footerStart] at hthere ⊢
  rw [BlockPlan.emissions, ← h.sizeHeader]
  rw [← h.sizeHeader] at hthere
  obtain ⟨afterHeader, hskip, hchunksFrom⟩ :=
    skipRegion_full lane source.position hserves (Nat.le_of_add_right_le hthere)
  have hchunksThere : (plan.chunks.map (·.sizeBytes)).sum ≤
      (data.drop runner.sizeHeader).length := by
    rw [List.length_drop]
    exact Nat.le_sub_of_add_le' hthere
  obtain ⟨deliveries, behind, hdeliveries, hchunks, hfooterFrom⟩ :=
    runChunks_full lane source.position h.chunks hbuilt hchunksFrom hchunksThere 0
  rw [Nat.zero_add] at hchunks
  rw [List.drop_drop, Nat.add_assoc] at hfooterFrom
  refine ⟨deliveries, behind, hdeliveries, fun final hfooter => ?_, hfooterFrom⟩
  rw [runCycle_of_header lane hskip]
  exact hchunks.bind_done hfooter

/-- A cycle whose bytes are there delivers what they emit. -/
theorem Attached.runCycle_full (h : BlockRunner.Attached registry plan runner)
    (hbuilt : ∀ chunk ∈ plan.chunks, chunk.IsBuilt) (hserves : source.Serves position data)
    (hsize : plan.size ≤ data.length) :
    ∃ deliveries behind,
      List.Forall₂ registry.Addresses (plan.emissions data) deliveries ∧
      (runner.runCycle lane source).Delivers deliveries
        (.ok (.completed plan.size deliveries.length), behind) ∧
      behind.Serves (position + plan.size) (data.drop plan.size) := by
  rw [plan.size_eq, ← h.sizeFooter] at hsize ⊢
  obtain ⟨deliveries, afterChunks, hdeliveries, hrun, hfooterFrom⟩ :=
    h.runCycle_footer lane hbuilt hserves (Nat.le_of_add_right_le hsize)
  have hfooterThere : runner.sizeFooter ≤ (data.drop plan.footerStart).length := by
    rw [List.length_drop]
    exact Nat.le_sub_of_add_le' hsize
  obtain ⟨behind, hfooter, hbehind⟩ :=
    passFooter_full lane position deliveries.length hfooterFrom hfooterThere
  rw [Nat.add_assoc, Nat.add_sub_cancel_left] at hfooter
  rw [Nat.add_assoc, List.drop_drop] at hbehind
  exact ⟨deliveries, behind, hdeliveries, hrun _ hfooter, hbehind⟩

/-- Where the input ends a cycle delivers nothing and says so. -/
theorem Attached.runCycle_end (h : BlockRunner.Attached registry plan runner)
    (hbuilt : ∀ chunk ∈ plan.chunks, chunk.IsBuilt) (hpos : 0 < plan.size)
    (hserves : source.Serves position []) :
    ∃ behind, runner.runCycle lane source = .done (.ok .endOfInput, behind) ∧
      behind.Serves position [] := by
  obtain rfl := hserves.position_eq
  by_cases hheader : 0 < runner.sizeHeader
  · rcases skipRegion_end lane hserves hheader with ⟨behind, hskip, hbehind⟩
    refine ⟨behind, ?_, hbehind⟩
    simp only [runCycle, hskip, Process.bind]
  -- Without a header the first chunk is missing, or without chunks the footer.
  have hzero : runner.sizeHeader = 0 := by omega
  obtain ⟨afterHeader, hskip, hchunksFrom⟩ :=
    skipRegion_full lane source.position hserves (hzero ▸ Nat.zero_le _)
  rw [hzero, Nat.add_zero, List.drop_nil] at hchunksFrom
  rw [runCycle_of_header lane hskip]
  by_cases hplans : plan.chunks = []
  · have hrunners : runner.chunks = [] := List.forall₂_nil_left_iff.mp (hplans ▸ h.chunks)
    have hfooter : 0 < runner.sizeFooter := by
      have hsize := plan.size_eq
      rw [BlockPlan.footerStart, ← h.sizeHeader, ← h.sizeFooter, hplans, List.map_nil,
        List.sum_nil] at hsize
      omega
    rcases skipRegion_end lane hchunksFrom hfooter with ⟨behind, hmissing, hbehind⟩
    refine ⟨behind, ?_, hbehind⟩
    simp only [hrunners, runChunks, passFooter, hmissing, Process.map, Process.bind]
  · obtain ⟨behind, hmissing, hbehind⟩ :=
      runChunks_end lane h.chunks hbuilt hplans hchunksFrom 0
    refine ⟨behind, ?_, hbehind⟩
    simp only [hmissing, passFooter, Process.bind]

/-- A cycle that the input ends in delivers what its chunks before the end emit, and names the first
region that is not there in full. No bytes are left then. -/
theorem Attached.runCycle_cut (h : BlockRunner.Attached registry plan runner)
    (hbuilt : ∀ chunk ∈ plan.chunks, chunk.IsBuilt) (hserves : source.Serves position data)
    (hdata : data ≠ []) {got : ℕ} (hcut : cutRegion plan.regions data.length = some (size, got)) :
    ∃ deliveries behind,
      List.Forall₂ registry.Addresses (plan.emissions data) deliveries ∧
      (runner.runCycle lane source).Delivers deliveries
        (.error (.source lane (.truncated (position + data.length - got) size got)), behind) ∧
      behind.Serves (position + data.length) [] := by
  obtain rfl := hserves.position_eq
  rw [cutRegion_regions] at hcut
  split_ifs at hcut with hheader hchunks hfooter
  · -- The footer is cut.
    rcases Prod.mk.inj (Option.some_inj.mp hcut) with ⟨rfl, rfl⟩
    obtain ⟨deliveries, afterChunks, hdeliveries, hrun, hfooterFrom⟩ :=
      h.runCycle_footer lane hbuilt hserves hchunks
    have hfooterCut : (data.drop plan.footerStart).length < runner.sizeFooter := by
      have hsize := plan.size_eq
      rw [List.length_drop, h.sizeFooter]
      omega
    obtain ⟨behind, hmissing, hbehind⟩ := passFooter_cut lane deliveries.length hfooterFrom
      hfooterCut (begun_of_drop hdata plan.footerStart)
    have hposition : source.position + data.length - (data.length - plan.footerStart) =
        source.position + plan.footerStart := by omega
    rw [List.length_drop, h.sizeFooter] at hmissing
    rw [List.length_drop, Nat.add_assoc, Nat.add_sub_cancel' hchunks] at hbehind
    rw [hposition]
    exact ⟨deliveries, behind, hdeliveries, hrun _ hmissing, hbehind⟩
  · -- A chunk is cut.
    rw [← List.length_drop] at hcut
    rw [← h.sizeHeader] at hheader hcut
    obtain ⟨afterHeader, hskip, hchunksFrom⟩ :=
      skipRegion_full lane source.position hserves hheader
    obtain ⟨deliveries, behind, hdeliveries, hrun, hbehind⟩ := runChunks_cut lane h.chunks
      hbuilt hchunksFrom (Nat.le_add_right _ _) (begun_of_drop hdata runner.sizeHeader) hcut 0
    rw [List.length_drop, Nat.add_assoc, Nat.add_sub_cancel' hheader] at hrun hbehind
    rw [BlockPlan.emissions, ← h.sizeHeader, runCycle_of_header lane hskip]
    exact ⟨deliveries, behind, hdeliveries, hrun.bind_done rfl, hbehind⟩
  · -- The header is cut.
    rcases Prod.mk.inj (Option.some_inj.mp hcut) with ⟨rfl, rfl⟩
    have hheaderCut : data.length < runner.sizeHeader := by
      rw [h.sizeHeader]
      omega
    obtain ⟨behind, hskip, hbehind⟩ := skipRegion_cut lane hserves hheaderCut (.inl hdata)
    have hempty : plan.emissions data = [] := by
      rw [BlockPlan.emissions, List.drop_of_length_le (by omega), chunkEmissions_nil hbuilt]
    rw [hempty, Nat.add_sub_cancel]
    refine ⟨[], behind, .nil, ?_, hbehind⟩
    rw [runCycle, hskip, h.sizeHeader]
    exact .done _

end BlockRunner

end SampleDemux
