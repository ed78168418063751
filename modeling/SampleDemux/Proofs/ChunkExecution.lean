import SampleDemux.Lane.Workspace
import SampleDemux.Proofs.EmissionOrder
import SampleDemux.Proofs.Exchange
import SampleDemux.Proofs.OpenConverter

/-!
# A chunk that is read again and again

A chunk is read into a workspace that every earlier reading has used, whether it came to its end or
stopped halfway. Nothing of that shows: a request that is served in full writes over every byte, and
no sample is delivered before every unit has put its value over the last one. So what a reading
comes to, and by which exchanges, is a function of the bytes that it was served. Samples are only
delivered of a chunk that is there in full, in the order of the call numbers and up to the first one
that is not taken.
-/

namespace SampleDemux

open Process

/-- The error that a reply to a sample of a stream comes to, unless the sample was taken. -/
def Reply.error? (lane stream : String) : Reply → Option ConvertError
  | accepted => none
  | refused cause => some (.sink stream cause)
  | panicked => some (.workerPanicked lane)

namespace ByteSource

/-- Gets the bytes of a request and makes it. -/
def request (source : ByteSource) (count : ℕ) : Process Read :=
  (source.fetchRead count).map (·.read count)

variable {shows : Showing} {source : ByteSource}

/-- Getting bytes from the file makes no exchanges and leaves the position. -/
theorem exchanges_fetch {wanted : ℕ} {amount : ℕ → ℕ} {exchanges : List Exchange}
    {later : ByteSource} (h : (source.fetch wanted amount).Exchanges shows exchanges later) :
    exchanges = [] ∧ later.position = source.position := by
  have horderly := source.fetch_orderly wanted amount fun _ => False
  refine ⟨horderly.exchanges_eq_nil h, ?_⟩
  have hreturn := h.canReturn
  unfold fetch at hreturn
  split at hreturn
  · cases hreturn
    rfl
  · dsimp only at hreturn
    split at hreturn
    · cases hreturn
      rfl
    · cases hreturn with
      | look data hdone =>
        cases hdone
        rfl

/-- A request is a read of a source at the same position. -/
theorem exchanges_request {count : ℕ} {exchanges : List Exchange} {read : Read} :
    (source.request count).Exchanges shows exchanges read ↔
      ∃ later, (source.fetchRead count).Exchanges shows exchanges later ∧
        later.read count = read := exchanges_map

/-- A request that does not fail takes what it says, and its source stands behind that. -/
theorem request_of_ok {count : ℕ} {exchanges : List Exchange} {read : Read} {fill : Fill}
    (h : (source.request count).Exchanges shows exchanges read) (hfill : read.outcome = .ok fill) :
    read.data.length = fill.served count ∧
      read.source.position = source.position + fill.served count := by
  obtain ⟨later, hfetch, rfl⟩ := exchanges_request.mp h
  have hposition := (exchanges_fetch hfetch).2
  have hserved := read_of_ok hfill
  rw [hposition] at hserved
  exact hserved

/-- A request to a reader alone takes the bytes that the reader would hand out next. -/
theorem request_reader {count : ℕ} {exchanges : List Exchange} {read : Read}
    (h : (source.request count).Exchanges shows exchanges read) (hfile : source.file = none) :
    source.remaining = read.data ++ read.source.remaining := by
  obtain ⟨later, hfetch, rfl⟩ := exchanges_request.mp h
  rw [fetchRead, fetch_of_file_eq_none hfile] at hfetch
  cases hfetch
  unfold ByteSource.read remaining
  cases hreader : source.reader with
  | none => simp [hreader]
  | some reader =>
    have hbytes := bytesOf_takeEvents count reader.events
    dsimp only
    split <;> exact hbytes

/-- A request to a reader that hands out the bytes before it may fail takes them. -/
theorem exists_request_full {count : ℕ} {front rest : List ReadEvent}
    (hfile : source.file = none) (hreader : source.reader = some ⟨front ++ rest⟩)
    (hfree : Reader.FaultFree ⟨front⟩) (hcount : count ≤ (Reader.bytesOf front).length) :
    ∃ read, (source.request count).Exchanges shows [] read ∧ read.outcome = .ok .full ∧
      read.data = (Reader.bytesOf front).take count := by
  obtain ⟨left, htaken, -, -⟩ := Reader.takeEvents_of_faultFree count hfree
  have hlength : ((Reader.bytesOf front).take count).length = count := by simp [hcount]
  have hwhole := Reader.takeEvents_append htaken hlength rest
  have hfetch : source.fetchRead count = .done source := fetch_of_file_eq_none hfile _ _
  refine ⟨source.read count, exchanges_request.mpr ⟨source, hfetch ▸ .done source, rfl⟩, ?_, ?_⟩
  · rw [read, hreader]
    dsimp only
    rw [hwhole, hlength, Fill.of, if_pos rfl]
  · rw [read, hreader]
    dsimp only
    rw [hwhole]

end ByteSource

namespace Workspace

variable {workspace : Workspace} {plan : ChunkPlan} {data : List UInt8}

/-- A workspace has the size of a plan. -/
structure Fits (workspace : Workspace) (plan : ChunkPlan) : Prop where
  /-- There is a place for every byte. -/
  buffer : workspace.buffer.length = plan.sizeBytes
  /-- There is a place for every unit. -/
  values : workspace.values.length = plan.units.length

/-- A new workspace has the size of its plan. -/
theorem fits_fresh (plan : ChunkPlan) : (fresh plan).Fits plan where
  buffer := List.length_replicate
  values := List.length_replicate

/-- Writing bytes for which there is place leaves the size. -/
theorem Fits.write (h : workspace.Fits plan) (hdata : data.length ≤ plan.sizeBytes) :
    (workspace.write data).Fits plan where
  buffer := by
    have hbuffer := h.buffer
    simp only [Workspace.write, List.length_append, List.length_drop]
    omega
  values := h.values

/-- Writing as many bytes as there are leaves none of them. -/
theorem Fits.buffer_write (h : workspace.Fits plan) (hdata : data.length = plan.sizeBytes) :
    (workspace.write data).buffer = data := by
  have hnone : workspace.buffer.drop data.length = [] :=
    List.drop_of_length_le (by rw [h.buffer, hdata])
  simp only [Workspace.write, hnone, List.append_nil]

end Workspace

namespace ChunkRunner

section Extraction

variable (reader : BitReader)

/-- Extracting leaves the places. -/
theorem length_extractInto (places : List (Option Sample)) (units : List PlanUnit) :
    (extractInto reader places units).2.length = places.length := by
  induction places generalizing reader units with
  | nil => rfl
  | cons place places ih =>
    cases units with
    | nil => rfl
    | cons unit units =>
      unfold extractInto
      split
      · rfl
      · rename_i value behind hvalue
        have hrest := ih behind units
        simp only [List.length_cons, hrest]

/-- Extracting into places gives what extracting gives, whatever is in them before. -/
theorem extractInto_eq {places : List (Option Sample)} {units : List PlanUnit}
    (h : places.length = units.length) :
    (extractInto reader places units).1 = (extract reader units).map (fun _ => ()) ∧
      ∀ values behind, extract reader units = .ok (values, behind) →
        (extractInto reader places units).2 = values := by
  induction places generalizing reader units with
  | nil =>
    obtain rfl : units = [] := List.length_eq_zero_iff.mp h.symm
    refine ⟨rfl, fun values behind hvalues => ?_⟩
    cases hvalues
    rfl
  | cons place places ih =>
    cases units with
    | nil => cases h
    | cons unit units =>
      unfold extractInto extract
      cases hunit : extractUnit reader unit with
      | error error =>
        refine ⟨rfl, fun values behind hvalues => ?_⟩
        cases hvalues
      | ok extracted =>
        have hrest := ih extracted.2 (Nat.succ.inj h)
        dsimp only
        cases hunits : extract extracted.2 units with
        | error error =>
          rw [hunits] at hrest
          refine ⟨hrest.1, fun values behind hvalues => ?_⟩
          cases hvalues
        | ok others =>
          rw [hunits] at hrest
          refine ⟨hrest.1, fun values behind hvalues => ?_⟩
          cases hvalues
          exact congrArg (extracted.1 :: ·) (hrest.2 _ _ rfl)

end Extraction

section Workspace

variable {runner : ChunkRunner} {workspace : Workspace} (lane : String) (source : ByteSource)

/-- Reading from the bytes at hand comes to the same in every workspace. -/
theorem executeNextIn_eq (hfits : workspace.Fits runner.plan) :
    (runner.executeNextIn lane workspace source).map (fun result => (result.1, result.2.1)) =
      runner.executeNext lane source := by
  unfold executeNextIn executeNext
  rw [hfits.buffer]
  dsimp only
  cases houtcome : (source.read runner.plan.sizeBytes).outcome with
  | error error => rfl
  | ok fill =>
    cases fill with
    | empty => rfl
    | part got => rfl
    | full =>
      have hdata : (source.read runner.plan.sizeBytes).data.length = runner.plan.sizeBytes :=
        (ByteSource.read_of_ok houtcome).1
      have hbuffer := hfits.buffer_write hdata
      have hplaces := (hfits.write hdata.le).values
      dsimp only
      rw [hbuffer, values]
      have hextract := extractInto_eq
        (bitReader runner.plan (source.read runner.plan.sizeBytes).data) hplaces
      cases hunits : extract (bitReader runner.plan (source.read runner.plan.sizeBytes).data)
          runner.plan.units with
      | error error =>
        rw [hunits] at hextract
        simp only [hextract.1, Except.map]
        rfl
      | ok extracted =>
        rw [hunits] at hextract
        simp only [hextract.1, hextract.2 _ _ rfl, Except.map]
        exact map_map _ _ _

/-- Reading a chunk comes to the same in every workspace. -/
theorem executeIn_eq (hfits : workspace.Fits runner.plan) :
    (runner.executeIn lane workspace source).map (fun result => (result.1, result.2.1)) =
      runner.execute lane source := by
  unfold executeIn execute
  rw [map_bind, hfits.buffer]
  congr 1
  funext later
  exact executeNextIn_eq lane later hfits

/-- Whatever a reading comes to, it leaves the size of its workspace. -/
theorem fits_of_executeIn (hfits : workspace.Fits runner.plan)
    {result : Except ConvertError (Option ℕ) × ByteSource × Workspace}
    (h : (runner.executeIn lane workspace source).CanReturn result) :
    result.2.2.Fits runner.plan := by
  obtain ⟨later, -, hnext⟩ := canReturn_bind.mp h
  have hwritten := hfits.write (later.length_read_le runner.plan.sizeBytes)
  unfold executeNextIn at hnext
  rw [hfits.buffer] at hnext
  dsimp only at hnext
  split at hnext
  · cases hnext
    exact hwritten
  · cases hnext
    exact hwritten
  · cases hnext
    exact hwritten
  · -- The words were rewritten where they stand, and units put their values into their places.
    have hreader := runner.plan.size_bitReader hwritten.buffer
    have hdata : (bitReader runner.plan
        (workspace.write (later.read runner.plan.sizeBytes).data).buffer).data.toList.length =
          runner.plan.sizeBytes := by
      rw [ChunkPlan.capacityBits] at hreader
      rw [Array.length_toList]
      omega
    have hplaces := length_extractInto
      (bitReader runner.plan (workspace.write (later.read runner.plan.sizeBytes).data).buffer)
      (workspace.write (later.read runner.plan.sizeBytes).data).values runner.plan.units
    split at hnext
    · cases hnext
      exact ⟨hdata, hplaces.trans hwritten.values⟩
    · obtain ⟨outcome, -, rfl⟩ := canReturn_map.mp hnext
      exact ⟨hdata, hplaces.trans hwritten.values⟩

/-- A workspace as earlier readings left it, whatever came of them: a new one, or one in which a
chunk was read from any source and with any replies of its sinks. -/
inductive Used (runner : ChunkRunner) : Workspace → Prop
  /-- Nothing was read. -/
  | fresh : Used runner (.fresh runner.plan)
  /-- A chunk was read. -/
  | executed {workspace : Workspace} {lane : String} {source : ByteSource}
      {result : Except ConvertError (Option ℕ) × ByteSource × Workspace}
      (h : Used runner workspace)
      (hresult : (runner.executeIn lane workspace source).CanReturn result) :
      Used runner result.2.2

/-- A workspace keeps its size. -/
theorem Used.fits (h : runner.Used workspace) : workspace.Fits runner.plan := by
  induction h with
  | fresh => exact Workspace.fits_fresh runner.plan
  | @executed workspace lane source result _ hresult ih =>
    exact fits_of_executeIn lane source ih hresult

end Workspace

section Deliveries

variable {shows : Showing} (lane : String)

/-- A sample that is not taken ends the deliveries with the error of the reply. -/
theorem deliverAll_cons (count : ℕ) (delivery : Delivery) (rest : List Delivery) :
    deliverAll lane count (delivery :: rest) = .deliver delivery fun reply =>
      match reply.error? lane delivery.record.id with
      | none => deliverAll lane (count + 1) rest
      | some error => .done (.error error) := by
  rw [deliverAll]
  congr 1
  funext reply
  cases reply <;> rfl

/-- Samples are delivered one after the other: all of them are taken, or all before one that is not,
and none behind that. -/
theorem exchanges_deliverAll {count : ℕ} {deliveries : List Delivery} {exchanges : List Exchange}
    {outcome : Except ConvertError ℕ} :
    (deliverAll lane count deliveries).Exchanges shows exchanges outcome ↔
      (exchanges = deliveries.map .taken ∧ outcome = .ok (count + deliveries.length)) ∨
      ∃ front delivery back reply error, deliveries = front ++ delivery :: back ∧
        reply.error? lane delivery.record.id = some error ∧
        exchanges = front.map .taken ++ [⟨delivery, reply⟩] ∧ outcome = .error error := by
  induction deliveries generalizing count exchanges with
  | nil =>
    constructor
    · intro h
      cases h
      exact .inl ⟨rfl, rfl⟩
    · rintro (⟨rfl, rfl⟩ | ⟨front, delivery, back, reply, error, hnil, -⟩)
      · exact .done _
      · exact absurd hnil.symm (List.append_ne_nil_of_right_ne_nil front (List.cons_ne_nil _ _))
  | cons delivery rest ih =>
    rw [deliverAll_cons]
    constructor
    · intro h
      cases h with
      | deliver reply hnext =>
        dsimp only at hnext
        cases herror : reply.error? lane delivery.record.id with
        | some error =>
          rw [herror] at hnext
          cases hnext
          exact .inr ⟨[], delivery, rest, reply, error, rfl, herror, rfl, rfl⟩
        | none =>
          obtain rfl : reply = .accepted := by cases reply <;> cases herror; rfl
          rw [herror] at hnext
          obtain ⟨rfl, rfl⟩ | ⟨front, other, back, reply, error, rfl, hreply, rfl, rfl⟩ :=
            ih.mp hnext
          · refine .inl ⟨rfl, ?_⟩
            rw [List.length_cons, Nat.add_assoc, Nat.add_comm 1]
          · exact .inr ⟨delivery :: front, other, back, reply, error, rfl, hreply, rfl, rfl⟩
    · rintro (⟨rfl, rfl⟩ | ⟨front, other, back, reply, error, hparts, hreply, rfl, rfl⟩)
      · refine .deliver .accepted (ih.mpr (.inl ⟨rfl, ?_⟩))
        rw [List.length_cons, Nat.add_assoc, Nat.add_comm 1]
      · cases front with
        | nil =>
          obtain ⟨rfl, rfl⟩ := List.cons.inj hparts
          refine .deliver reply ?_
          rw [hreply]
          exact .done _
        | cons first front =>
          obtain ⟨rfl, rfl⟩ := List.cons.inj hparts
          exact .deliver .accepted
            (ih.mpr (.inr ⟨front, other, back, reply, error, rfl, hreply, rfl, rfl⟩))

end Deliveries

variable {W S : Type} {registry : Registry W S} {plan : ChunkPlan} {runner : ChunkRunner}

/-- An attached chunk is attached again in no other way, and nothing is added to the registry. -/
theorem Attached.attach_again (h : Attached registry plan runner) (hsound : registry.Sound)
    (kind : SinkKind W S) : attach kind plan registry = (.ok runner, registry) := by
  have hbind : bindStreams kind plan.streams registry = (.ok runner.bindings, registry) := by
    have hbindings := h.bindings
    generalize plan.streams = records at hbindings
    generalize runner.bindings = bindings at hbindings
    induction hbindings with
    | nil => rfl
    | @cons record binding records bindings hbound _ ih =>
      have hid := hsound.records _ _ hbound.record
      have hsink := hbound.sink
      rw [← hid] at hsink
      simp only [bindStreams, Registry.recordOrInsert, hbound.record, Registry.sink, hsink, ih]
  have hplan := h.plan_eq
  subst hplan
  simp only [attach, hbind]

end ChunkRunner

namespace ChunkPlan

/-- A built plan emits as many samples as it counts. -/
theorem IsBuilt.length_emissions {plan : ChunkPlan} (h : plan.IsBuilt) (data : List UInt8) :
    (plan.emissions data).length = plan.sampleCount := by
  have hemitted : ∀ index ∈ plan.dispatchOrder, (plan.emissionAt data index).isSome = true := by
    intro index hindex
    obtain ⟨⟨order, place⟩, hnumbered, rfl⟩ := List.mem_map.mp hindex
    have hmem := (List.mergeSort_perm _ _).mem_iff.mp hnumbered
    obtain ⟨⟨bits, kind⟩, hunit, horder⟩ := mem_numberedSamples.mp hmem
    cases kind with
    | padding => cases horder
    | sample stream decoder order =>
      have hrecord := List.getElem?_eq_getElem (h.stream_lt hunit)
      obtain ⟨sample, -, hemission⟩ := @emissionAt_of_sample plan data _ _ _ _ _ hunit _ hrecord
      rw [hemission]
      rfl
  have hcalled : ∀ unit : PlanUnit, unit.callOrder?.isSome = !unit.isPadding := by
    rintro ⟨bits, _ | _⟩ <;> rfl
  rw [emissions, List.filterMap_length_eq_length.mpr hemitted, dispatchOrder, List.length_map,
    List.length_mergeSort, numberedSamples, List.length_filterMap_eq_countP, sampleCount]
  have hunits : plan.units.zipIdx.map Prod.fst = plan.units := List.zipIdx_map_fst 0 plan.units
  rw [← hunits, List.countP_map, hunits]
  congr 1
  funext numbered
  obtain ⟨unit, index⟩ := numbered
  simp only [Option.isSome_map, hcalled, Function.comp_apply]

/-- What reading a chunk may come to when its request was answered, and by which exchanges. -/
inductive Execution {W S : Type} (registry : Registry W S) (plan : ChunkPlan) (lane : String)
    (position : ℕ) (data : List UInt8) :
    Except SourceError Fill → List Exchange → Except ConvertError (Option ℕ) → Prop
  /-- The source failed; no sample is delivered. -/
  | failed (error : SourceError) :
      Execution registry plan lane position data (.error error) [] (.error (.source lane error))
  /-- The source was at its end; no sample is delivered. -/
  | ended : Execution registry plan lane position data (.ok .empty) [] (.ok none)
  /-- The source ended inside the chunk; no sample is delivered. -/
  | cut (got : ℕ) :
      Execution registry plan lane position data (.ok (.part got)) []
        (.error (.source lane (.truncated position plan.sizeBytes got)))
  /-- The chunk was there, and all its samples were taken. -/
  | delivered {deliveries : List Delivery}
      (hdeliveries : List.Forall₂ registry.Addresses (plan.emissions data) deliveries) :
      Execution registry plan lane position data (.ok .full) (deliveries.map .taken)
        (.ok (some plan.sampleCount))
  /-- The chunk was there, and one of its samples was not taken; those before it were. -/
  | stopped {front back : List Emission} {emission : Emission} {deliveries : List Delivery}
      {delivery : Delivery} {reply : Reply} {error : ConvertError}
      (hemissions : plan.emissions data = front ++ emission :: back)
      (hdeliveries : List.Forall₂ registry.Addresses front deliveries)
      (hdelivery : registry.Addresses emission delivery)
      (hreply : reply.error? lane emission.stream = some error) :
      Execution registry plan lane position data (.ok .full)
        (deliveries.map .taken ++ [⟨delivery, reply⟩]) (.error error)

/-- For what a chunk that is there comes to it makes no difference where it is. -/
theorem Execution.anywhere {W S : Type} {registry : Registry W S} {plan : ChunkPlan}
    {lane : String} {position : ℕ} {data : List UInt8} {exchanges : List Exchange}
    {outcome : Except ConvertError (Option ℕ)}
    (h : plan.Execution registry lane position data (.ok .full) exchanges outcome) (other : ℕ) :
    plan.Execution registry lane other data (.ok .full) exchanges outcome := by
  cases h with
  | delivered hdeliveries => exact .delivered hdeliveries
  | stopped hemissions hdeliveries hdelivery hreply =>
    exact .stopped hemissions hdeliveries hdelivery hreply

end ChunkPlan

/-- A sample is addressed in one way. -/
theorem Registry.addresses_rightUnique {W S : Type} (registry : Registry W S) :
    Relator.RightUnique registry.Addresses := by
  intro emission delivery other h hother
  have hsink := Option.some_inj.mp (h.sink.symm.trans hother.sink)
  have hrecord := Option.some_inj.mp (h.record.symm.trans hother.record)
  have hsample := h.sample.trans hother.sample.symm
  cases delivery
  cases other
  simp only at hsink hrecord hsample
  rw [hsink, hrecord, hsample]

namespace ChunkRunner

variable {W S : Type} {registry : Registry W S} {plan : ChunkPlan} {runner : ChunkRunner}
  {shows : Showing} (lane : String) (source : ByteSource)

/-- Reading an attached chunk from the bytes at hand comes to what the bytes say. -/
theorem Attached.exchanges_executeNext (h : Attached registry plan runner) (hbuilt : plan.IsBuilt)
    (hsound : registry.Sound) {exchanges : List Exchange}
    {outcome : Except ConvertError (Option ℕ)} {behind : ByteSource} :
    (runner.executeNext lane source).Exchanges shows exchanges (outcome, behind) ↔
      behind = (source.read plan.sizeBytes).source ∧
        plan.Execution registry lane source.position (source.read plan.sizeBytes).data
          (source.read plan.sizeBytes).outcome exchanges outcome := by
  have haddresses := h.addresses hbuilt (source.read plan.sizeBytes).data
  have hunique := registry.addresses_rightUnique
  unfold executeNext
  rw [h.plan_eq]
  dsimp only
  cases hanswer : (source.read plan.sizeBytes).outcome with
  | error error =>
    dsimp only
    constructor
    · intro hdone
      cases hdone
      exact ⟨rfl, .failed error⟩
    · rintro ⟨rfl, ⟨⟩⟩
      exact .done _
  | ok fill =>
    have hserved := ByteSource.read_of_ok hanswer
    cases fill with
    | empty =>
      dsimp only
      constructor
      · intro hdone
        cases hdone
        exact ⟨rfl, .ended⟩
      · rintro ⟨rfl, ⟨⟩⟩
        exact .done _
    | part got =>
      have hposition : (source.read plan.sizeBytes).source.position - got = source.position := by
        rw [hserved.2, Fill.served, Nat.add_sub_cancel]
      dsimp only
      rw [hposition]
      constructor
      · intro hdone
        cases hdone
        exact ⟨rfl, .cut got⟩
      · rintro ⟨rfl, ⟨⟩⟩
        exact .done _
    | full =>
      dsimp only
      rw [hbuilt.values_eq hserved.1]
      dsimp only
      rw [exchanges_map]
      constructor
      · rintro ⟨result, hdeliver, hresult⟩
        obtain ⟨rfl, rfl⟩ := Prod.mk.inj hresult
        refine ⟨rfl, ?_⟩
        obtain ⟨rfl, rfl⟩ | ⟨front, delivery, back, reply, error, hparts, hreply, rfl, rfl⟩ :=
          (exchanges_deliverAll lane).mp hdeliver
        · have hcount := haddresses.length_eq
          rw [hbuilt.length_emissions] at hcount
          rw [Nat.zero_add, ← hcount]
          exact .delivered haddresses
        · rw [hparts] at haddresses
          obtain ⟨before, emission, behind, hemissions, hbefore, hemission⟩ :=
            exists_parts_of_forall₂ haddresses.flip
          rw [hsound.records _ _ hemission.record] at hreply
          exact .stopped hemissions hbefore.flip hemission hreply
      · rintro ⟨rfl, hexecution⟩
        cases hexecution with
        | @delivered deliveries hdeliveries =>
          have hsame := List.right_unique_forall₂' hunique haddresses hdeliveries
          have hcount := hdeliveries.length_eq
          rw [hbuilt.length_emissions] at hcount
          refine ⟨_, (exchanges_deliverAll lane).mpr (.inl ⟨by rw [hsame], rfl⟩), ?_⟩
          rw [hsame, Nat.zero_add, hcount]
          rfl
        | @stopped front back emission deliveries delivery reply error hemissions hdeliveries
            hdelivery hreply =>
          rw [hemissions] at haddresses
          obtain ⟨before, second, behind, hparts, hbefore, hsecond⟩ :=
            exists_parts_of_forall₂ haddresses
          obtain rfl := List.right_unique_forall₂' hunique hdeliveries hbefore
          obtain rfl := hunique hdelivery hsecond
          rw [← hsound.records _ _ hdelivery.record] at hreply
          exact ⟨_, (exchanges_deliverAll lane).mpr
            (.inr ⟨_, delivery, behind, reply, error, hparts, hreply, rfl, rfl⟩), rfl⟩

/-- Reading an attached chunk comes to what the answer to its request says. -/
theorem Attached.exchanges_execute (h : Attached registry plan runner) (hbuilt : plan.IsBuilt)
    (hsound : registry.Sound) {exchanges : List Exchange}
    {outcome : Except ConvertError (Option ℕ)} {behind : ByteSource} :
    (runner.execute lane source).Exchanges shows exchanges (outcome, behind) ↔
      ∃ read, (source.request plan.sizeBytes).Exchanges shows [] read ∧ behind = read.source ∧
        plan.Execution registry lane source.position read.data read.outcome exchanges outcome := by
  unfold execute
  rw [exchanges_bind, h.plan_eq]
  constructor
  · rintro ⟨first, rest, later, hfetch, hnext, rfl⟩
    obtain ⟨rfl, hposition⟩ := ByteSource.exchanges_fetch hfetch
    have hread := (h.exchanges_executeNext lane later hbuilt hsound).mp hnext
    rw [hposition] at hread
    exact ⟨_, ByteSource.exchanges_request.mpr ⟨later, hfetch, rfl⟩, hread⟩
  · rintro ⟨read, hrequest, hread⟩
    obtain ⟨later, hfetch, rfl⟩ := ByteSource.exchanges_request.mp hrequest
    have hposition := (ByteSource.exchanges_fetch hfetch).2
    rw [← hposition] at hread
    exact ⟨[], exchanges, later, hfetch,
      (h.exchanges_executeNext lane later hbuilt hsound).mpr hread, rfl⟩

/-- In a workspace of the chunk's size the same exchanges come to the same. -/
theorem exchanges_executeIn {workspace : Workspace} (hfits : workspace.Fits runner.plan)
    {exchanges : List Exchange} {outcome : Except ConvertError (Option ℕ)} {behind : ByteSource} :
    (∃ after, (runner.executeIn lane workspace source).Exchanges shows exchanges
        (outcome, behind, after)) ↔
      (runner.execute lane source).Exchanges shows exchanges (outcome, behind) := by
  rw [← executeIn_eq lane source hfits, exchanges_map]
  constructor
  · rintro ⟨after, hafter⟩
    exact ⟨_, hafter, rfl⟩
  · rintro ⟨⟨_, _, after⟩, hafter, hresult⟩
    obtain ⟨rfl, rfl⟩ := Prod.mk.inj hresult
    exact ⟨after, hafter⟩

/-- Reading bytes that are a chunk comes to what they say, wherever they are. -/
theorem Attached.exchanges_ofBytes (h : Attached registry plan runner) (hbuilt : plan.IsBuilt)
    (hsound : registry.Sound) {data : List UInt8} (hdata : data.length = plan.sizeBytes)
    (position : ℕ) {exchanges : List Exchange} {outcome : Except ConvertError (Option ℕ)} :
    (∃ behind, (runner.execute lane (.ofBytes data)).Exchanges shows exchanges
        (outcome, behind)) ↔
      plan.Execution registry lane position data (.ok .full) exchanges outcome := by
  obtain ⟨behind, hread, -⟩ := (ByteSource.serves_ofBytes data).read_full hdata.ge
  rw [← hdata, List.take_length, hdata] at hread
  have hfetch : (ByteSource.ofBytes data).fetchRead plan.sizeBytes = .done (.ofBytes data) :=
    ByteSource.fetch_of_file_eq_none rfl _ _
  have hexecute : runner.execute lane (.ofBytes data) =
      runner.executeNext lane (.ofBytes data) := by
    rw [execute, h.plan_eq, hfetch]
    rfl
  rw [hexecute]
  constructor
  · rintro ⟨final, hfinal⟩
    have hexecution := ((h.exchanges_executeNext lane _ hbuilt hsound).mp hfinal).2
    rw [hread] at hexecution
    exact hexecution.anywhere position
  · intro hexecution
    refine ⟨behind, (h.exchanges_executeNext lane _ hbuilt hsound).mpr ?_⟩
    rw [hread]
    exact ⟨rfl, hexecution.anywhere _⟩

/-- How the chunk of a plan is read from a source into a workspace, where the streams of the plan
have their sinks in the registry `attached`. -/
structure ReadsChunk (shows : Showing) (lane : String) (source : ByteSource) (kind : SinkKind W S)
    (attached : Registry W S) (plan : ChunkPlan) (runner : ChunkRunner) (workspace : Workspace) :
    Prop where
  /-- A reading comes to what the answer to its request says, and by no other exchanges: if the
  source fails, is at its end or ends inside the chunk, no sink is given a sample; if the chunk is
  there, its samples are delivered in the order of the call numbers, all of them, with their number
  as the result, or up to one that is not taken, whose stream the error names. -/
  reading : ∀ exchanges outcome behind,
    (∃ after, (runner.executeIn lane workspace source).Exchanges shows exchanges
        (outcome, behind, after)) ↔
      ∃ read, (source.request plan.sizeBytes).Exchanges shows [] read ∧ behind = read.source ∧
        plan.Execution attached lane source.position read.data read.outcome exchanges outcome
  /-- If the chunk is there, the source has advanced by its size, whatever the sinks replied. -/
  advanced : ∀ read, (source.request plan.sizeBytes).Exchanges shows [] read →
    read.outcome = .ok .full → read.data.length = plan.sizeBytes ∧
      read.source.position = source.position + plan.sizeBytes
  /-- Its bytes are those that come next. -/
  next : ∀ read, (source.request plan.sizeBytes).Exchanges shows [] read →
    read.outcome = .ok .full → source.file = none →
      source.remaining = read.data ++ read.source.remaining
  /-- The chunk is there if the reader hands out its bytes before it may fail, in whatever
  pieces. -/
  there : ∀ front rest, source.file = none → source.reader = some ⟨front ++ rest⟩ →
    Reader.FaultFree ⟨front⟩ → plan.sizeBytes ≤ (Reader.bytesOf front).length →
      ∃ read, (source.request plan.sizeBytes).Exchanges shows [] read ∧ read.outcome = .ok .full ∧
        read.data = (Reader.bytesOf front).take plan.sizeBytes
  /-- The same plan is given the same sinks again. -/
  again : ∀ later, attached.Grows later → later.Sound →
    attach kind plan later = (.ok runner, later)
  /-- Every sample of the chunk goes to a sink. -/
  addressed : ∀ data, data.length = plan.sizeBytes →
    ∃ deliveries, List.Forall₂ attached.Addresses (plan.emissions data) deliveries
  /-- Reading the bytes alone in a new workspace comes to the same by the same exchanges. -/
  fresh : ∀ data, data.length = plan.sizeBytes → ∀ exchanges outcome,
    (∃ behind after, (runner.executeIn lane (.fresh plan) (.ofBytes data)).Exchanges shows
        exchanges (outcome, behind, after)) ↔
      plan.Execution attached lane source.position data (.ok .full) exchanges outcome
  /-- With any sinks of the kind a reading is one of these, and the sinks are given the samples of
  its exchanges. -/
  given : ∀ current : Registry W S, (∀ part world, shows part (kind.look part world)) →
    ∃ exchanges, (runner.executeIn lane workspace source).Exchanges shows exchanges
        ((runner.executeIn lane workspace source).run kind current).1 ∧
      ((runner.executeIn lane workspace source).run kind current).2 =
        current.consumeAll kind (exchanges.map (·.delivery))

variable (shows) in
/-- Take a built chunk plan whose streams were given sinks in a consistent registry, and the
workspace that any readings of the chunk have left, from whatever sources and with whatever replies
of the sinks. From any source the chunk is then read as in a new workspace. -/
theorem execution_of_used_workspace {kind : SinkKind W S} {attached : Registry W S}
    {descriptor : Descriptor} {system : System} {chunk : ChunkDecl} {workspace : Workspace}
    (hplan : ChunkPlan.build descriptor system chunk = .ok plan) (hregistry : registry.Consistent)
    (hattach : attach kind plan registry = (.ok runner, attached))
    (hused : runner.Used workspace) :
    ReadsChunk shows lane source kind attached plan runner workspace := by
  have hbuilt : plan.IsBuilt := ⟨descriptor, system, chunk, hplan⟩
  obtain ⟨hconsistent, -, hattached⟩ := attach_attachesOk kind plan _ _ _ hregistry hattach
  have hsound := hconsistent.sound
  have hnew : (Workspace.fresh plan).Fits runner.plan := by
    rw [hattached.plan_eq]
    exact Workspace.fits_fresh plan
  constructor
  case reading =>
    intro exchanges outcome behind
    rw [exchanges_executeIn lane source hused.fits]
    exact hattached.exchanges_execute lane source hbuilt hsound
  case advanced => exact fun read hrequest hfull => ByteSource.request_of_ok hrequest hfull
  case next => exact fun read hrequest _ => ByteSource.request_reader hrequest
  case there =>
    exact fun front rest hfile hreader hfree hbytes =>
      ByteSource.exists_request_full hfile hreader hfree hbytes
  case again => exact fun later hgrows hlater => (hattached.mono hgrows).attach_again hlater kind
  case addressed => exact fun data _ => ⟨_, hattached.addresses hbuilt data⟩
  case fresh =>
    intro data hdata exchanges outcome
    simp only [exchanges_executeIn lane _ hnew]
    exact hattached.exchanges_ofBytes lane hbuilt hsound hdata source.position
  case given =>
    intro current hshows
    obtain ⟨exchanges, hrun, hgiven, -⟩ :=
      exists_exchanges_run (.of_look hshows) _ current trivial
    exact ⟨exchanges, hrun, hgiven⟩

end ChunkRunner

/-- A chunk is read while its first sample is refused, then from a source that ends inside it, and
then from one that has it: the last reading gives all 12 samples of its own bytes, as the first one
would have. -/
theorem ChunkRunner.execution_of_used_workspace_of_packedChunk :
    ∃ plan runner attached emission delivery refused cut,
      ChunkPlan.build packedDescriptor {} packedChunk = .ok plan ∧
      attach MemorySink.kind plan { world := () } = (.ok runner, attached) ∧
      attached.Addresses emission delivery ∧
      (∃ behind, (runner.executeIn "P" (.fresh plan) (.ofBytes [1, 2, 3, 4, 5, 6])).Exchanges
        (.of fun _ => []) [⟨delivery, .refused (.ofMessage "full")⟩]
        (.error (.sink emission.stream (.ofMessage "full")), behind, refused)) ∧
      (∃ behind, (runner.executeIn "P" refused (.ofBytes [9, 9, 9])).Exchanges
        (.of fun _ => []) [] (.error (.source "P" (.truncated 0 6 3)), behind, cut)) ∧
      ∃ deliveries,
        List.Forall₂ attached.Addresses (plan.emissions [7, 7, 7, 7, 7, 7]) deliveries ∧
        (∃ behind after, (runner.executeIn "P" cut (.ofBytes [7, 7, 7, 7, 7, 7])).Exchanges
          (.of fun _ => []) (deliveries.map .taken) (.ok (some 12), behind, after)) ∧
        ∃ behind after,
          (runner.executeIn "P" (.fresh plan) (.ofBytes [7, 7, 7, 7, 7, 7])).Exchanges
            (.of fun _ => []) (deliveries.map .taken) (.ok (some 12), behind, after) := by
  obtain ⟨plan, runner, attached, hplan, hattach, hrunner, hsize, hcount⟩ :
      ∃ plan runner attached, ChunkPlan.build packedDescriptor {} packedChunk = .ok plan ∧
        attach MemorySink.kind plan { world := () } = (.ok runner, attached) ∧
        runner.plan = plan ∧ plan.sizeBytes = 6 ∧ plan.sampleCount = 12 :=
    ⟨_, _, _, rfl, by with_unfolding_all rfl, rfl, rfl, rfl⟩
  have hregistry : ({ world := () } : Registry Unit MemorySink).Consistent := .of_empty rfl rfl
  have hbuilt : plan.IsBuilt := ⟨_, _, _, hplan⟩
  have hexecution := fun source {workspace} (hused : runner.Used workspace) =>
    execution_of_used_workspace (.of fun _ => []) "P" source hplan hregistry hattach hused
  have hfresh : runner.Used (.fresh plan) := hrunner ▸ .fresh
  -- The first sample is refused.
  have hnew := hexecution (.ofBytes []) hfresh
  obtain ⟨called, hcalled⟩ := hnew.addressed [1, 2, 3, 4, 5, 6] hsize.symm
  have hfirst := hnew.fresh [1, 2, 3, 4, 5, 6] hsize.symm
  have hlength := hbuilt.length_emissions [1, 2, 3, 4, 5, 6]
  rw [hcount] at hlength
  obtain ⟨emission, back, hemissions⟩ := List.exists_cons_of_length_eq_add_one hlength
  rw [hemissions] at hcalled
  obtain ⟨delivery, rest, hdelivery, -, rfl⟩ := List.forall₂_cons_left_iff.mp hcalled
  have hparts : plan.emissions [1, 2, 3, 4, 5, 6] = [] ++ emission :: back := hemissions
  obtain ⟨first, refused, hrefused⟩ := (hfirst [⟨delivery, .refused (.ofMessage "full")⟩]
    (.error (.sink emission.stream (.ofMessage "full")))).mpr (.stopped hparts .nil hdelivery rfl)
  -- The source ends inside the chunk.
  have husedThen : runner.Used refused := hfresh.executed hrefused.canReturn
  have hshort := (hexecution (.ofBytes [9, 9, 9]) husedThen).reading
  have hrequest : ((ByteSource.ofBytes [9, 9, 9]).request plan.sizeBytes).Exchanges
      (.of fun _ => []) [] ((ByteSource.ofBytes [9, 9, 9]).read 6) := by
    rw [hsize]
    exact .done _
  have hcutShort : plan.Execution attached "P" 0 [9, 9, 9] (.ok (.part 3)) []
      (.error (.source "P" (.truncated 0 plan.sizeBytes 3))) := .cut 3
  rw [hsize] at hcutShort
  obtain ⟨cut, hcut⟩ := (hshort _ _ _).mpr ⟨_, hrequest, rfl, hcutShort⟩
  -- The chunk is there.
  have husedAgain : runner.Used cut := husedThen.executed hcut.canReturn
  have hagain := (hexecution (.ofBytes [7, 7, 7, 7, 7, 7]) husedAgain).reading
  have hwhole : ((ByteSource.ofBytes [7, 7, 7, 7, 7, 7]).request plan.sizeBytes).Exchanges
      (.of fun _ => []) [] ((ByteSource.ofBytes [7, 7, 7, 7, 7, 7]).read 6) := by
    rw [hsize]
    exact .done _
  obtain ⟨deliveries, hdeliveries⟩ := hnew.addressed [7, 7, 7, 7, 7, 7] hsize.symm
  have hbytes := hnew.fresh [7, 7, 7, 7, 7, 7] hsize.symm
  have hdelivered : plan.Execution attached "P" 0 [7, 7, 7, 7, 7, 7] (.ok .full)
      (deliveries.map .taken) (.ok (some plan.sampleCount)) := .delivered hdeliveries
  rw [hcount] at hdelivered
  obtain ⟨after, hafter⟩ := (hagain _ _ _).mpr ⟨_, hwhole, rfl, hdelivered⟩
  exact ⟨plan, runner, attached, emission, delivery, refused, cut, hplan, hattach, hdelivery,
    ⟨first, hrefused⟩, ⟨_, hcut⟩, deliveries, hdeliveries, ⟨_, after, hafter⟩,
    (hbytes _ _).mpr hdelivered⟩

end SampleDemux
