import SampleDemux.Lane.Pipeline
import SampleDemux.Sink.Memory
import SampleDemux.Proofs.Sequences

/-!
# Deliveries to sinks that never fail

When every sample is taken, a process is the list of its deliveries and a result, and running it
gives these deliveries to the sinks one after the other. The registry keeps one sink and one record
for each stream; attaching chunks and blocks only adds to it, and every attached stream has the sink
and the record that the registry has for it. What the samples are is left to others.
-/

namespace SampleDemux

/-- A sample of a stream. -/
structure Emission where
  /-- Identity of the stream. -/
  stream : String
  /-- The sample. -/
  sample : Sample
  deriving DecidableEq

namespace Catalog

variable {κ α : Type} [DecidableEq κ] [LT κ] [DecidableLT κ]

/-- A value that was set is found. -/
theorem find?_insert_self (catalog : Catalog κ α) (key : κ) (value : α) :
    (catalog.insert key value).find? key = some value := by
  rcases catalog with ⟨entries⟩
  simp only [insert, alter, find?]
  induction entries with
  | nil => simp [alterEntries]
  | cons entry entries ih =>
    rcases entry with ⟨other, present⟩
    rw [alterEntries]
    split
    · rename_i hsame
      simp [hsame]
    · rename_i hother
      split
      · simp
      · rwa [List.find?_cons_of_neg (by simpa using Ne.symm hother)]

/-- Setting a value leaves the values of all other keys. -/
theorem find?_insert_of_ne (catalog : Catalog κ α) {key other : κ} (h : other ≠ key) (value : α) :
    (catalog.insert key value).find? other = catalog.find? other := by
  rcases catalog with ⟨entries⟩
  simp only [insert, alter, find?]
  induction entries with
  | nil => simp [alterEntries, Ne.symm h]
  | cons entry entries ih =>
    rcases entry with ⟨present, found⟩
    rw [alterEntries]
    split
    · rename_i hsame
      rw [List.find?_cons_of_neg (by simpa [← hsame] using Ne.symm h),
        List.find?_cons_of_neg (by simpa [← hsame] using Ne.symm h)]
    · split
      · rw [List.find?_cons_of_neg (by simpa using Ne.symm h)]
      · by_cases hpresent : present = other
        · rw [List.find?_cons_of_pos (by simpa using hpresent),
            List.find?_cons_of_pos (by simpa using hpresent)]
        · rw [List.find?_cons_of_neg (by simpa using hpresent),
            List.find?_cons_of_neg (by simpa using hpresent), ih]

end Catalog

/-- Sinks of a kind can always be made and take every sample. -/
structure SinkKind.NeverFails {W S : Type} (kind : SinkKind W S) : Prop where
  /-- A sink is made. -/
  create : ∀ stream world, ∃ state after, kind.create stream world = (.ok state, after)
  /-- A sample is taken. -/
  consume : ∀ state sample record world,
    (kind.consume state sample record world).1 = .accepted

/-- Memory sinks never fail. -/
theorem MemorySink.kind_neverFails : kind.NeverFails :=
  ⟨fun _ world => ⟨{}, world, rfl⟩, fun _ _ _ _ => rfl⟩

namespace Registry

variable {W S : Type}

/-- Every stream's number is that of a sink made for it, and its record is its own. -/
structure Sound (registry : Registry W S) : Prop where
  /-- The sink of a stream was made for the stream. -/
  sinks : ∀ stream number, registry.sinks.find? stream = some number →
    (registry.made[number]?).map (·.stream) = some stream
  /-- The record of a stream has its identity. -/
  records : ∀ stream record, registry.records.find? stream = some record → record.id = stream

/-- A later registry has the sinks and records of an earlier one, and perhaps more. -/
structure Grows (registry later : Registry W S) : Prop where
  /-- Streams keep their sinks. -/
  sinks : ∀ stream number, registry.sinks.find? stream = some number →
    later.sinks.find? stream = some number
  /-- Streams keep their records. -/
  records : ∀ stream record, registry.records.find? stream = some record →
    later.records.find? stream = some record

/-- A delivery takes the sample of an emission to the sink of its stream, with the stream's
record. -/
structure Addresses (registry : Registry W S) (emission : Emission) (delivery : Delivery) :
    Prop where
  /-- The sink is the stream's. -/
  sink : registry.sinks.find? emission.stream = some delivery.sink
  /-- The record is the stream's. -/
  record : registry.records.find? emission.stream = some delivery.record
  /-- The sample is the emitted one. -/
  sample : delivery.sample = emission.sample

/-- Gives samples to their sinks, one after the other. -/
def consumeAll (kind : SinkKind W S) (registry : Registry W S) (deliveries : List Delivery) :
    Registry W S :=
  deliveries.foldl
    (fun registry delivery =>
      (registry.consume kind delivery.sink delivery.sample delivery.record).2) registry

/-- A registry without streams is sound. -/
theorem sound_of_world (world : W) : Sound ({ world } : Registry W S) :=
  ⟨fun _ _ h => (by cases h), fun _ _ h => (by cases h)⟩

/-- A registry has its own sinks and records. -/
theorem Grows.refl (registry : Registry W S) : registry.Grows registry :=
  ⟨fun _ _ h => h, fun _ _ h => h⟩

/-- What a registry has, every later one has. -/
theorem Grows.trans {first second third : Registry W S} (h : first.Grows second)
    (hnext : second.Grows third) : first.Grows third :=
  ⟨fun _ _ hsink => hnext.sinks _ _ (h.sinks _ _ hsink),
    fun _ _ hrecord => hnext.records _ _ (h.records _ _ hrecord)⟩

/-- A sink that was made takes every sample. -/
theorem consume_of_neverFails {kind : SinkKind W S} (hkind : kind.NeverFails)
    (registry : Registry W S) {number : ℕ} (h : number < registry.made.length) (sample : Sample)
    (record : StreamRecord) :
    (registry.consume kind number sample record).1 = .accepted ∧
      (registry.consume kind number sample record).2.made.length = registry.made.length := by
  simp only [consume, List.getElem?_eq_getElem h]
  exact ⟨hkind.consume .., List.length_set⟩

/-- A sink that is given out is the stream's, in a registry that has grown. -/
theorem Sound.sink_ok {kind : SinkKind W S} {registry later : Registry W S} (h : registry.Sound)
    {stream : String} {number : ℕ} (hsink : registry.sink kind stream = (.ok number, later)) :
    later.Sound ∧ registry.Grows later ∧ later.sinks.find? stream = some number := by
  unfold sink at hsink
  split at hsink
  · rename_i found hfound
    cases hsink
    exact ⟨h, .refl registry, hfound⟩
  · rename_i hnone
    split at hsink
    · cases hsink
    cases hsink
    refine ⟨⟨fun other number hother => ?_, h.records⟩,
      ⟨fun other number hother => ?_, fun _ _ h => h⟩, Catalog.find?_insert_self ..⟩
    · by_cases hsame : other = stream
      · subst hsame
        rw [Catalog.find?_insert_self, Option.some_inj] at hother
        rw [← hother, List.getElem?_concat_length]
        rfl
      · rw [Catalog.find?_insert_of_ne _ hsame] at hother
        have hmade := h.sinks other number hother
        have hbound : number < registry.made.length := by
          by_contra hbound
          rw [List.getElem?_eq_none (by omega)] at hmade
          cases hmade
        rwa [List.getElem?_append_left hbound]
    · by_cases hsame : other = stream
      · rw [hsame, hnone] at hother
        cases hother
      · rwa [Catalog.find?_insert_of_ne _ hsame]

/-- The sink of a stream is given out, and made before if there is none. -/
theorem sink_of_neverFails {kind : SinkKind W S} (hkind : kind.NeverFails)
    {registry : Registry W S} (hsound : registry.Sound) (stream : String) :
    ∃ number later, registry.sink kind stream = (.ok number, later) ∧ later.Sound ∧
      registry.Grows later ∧ later.sinks.find? stream = some number := by
  obtain ⟨number, later, hsink⟩ : ∃ number later,
      registry.sink kind stream = (.ok number, later) := by
    unfold sink
    split
    · exact ⟨_, registry, rfl⟩
    · rcases hkind.create stream registry.world with ⟨state, world, hcreate⟩
      rw [hcreate]
      exact ⟨_, _, rfl⟩
  exact ⟨number, later, hsink, hsound.sink_ok hsink⟩

/-- The record of a stream is given out, and entered before if there is none. -/
theorem recordOrInsert_of_sound {registry : Registry W S} (hsound : registry.Sound)
    (record : StreamRecord) :
    ∃ entered later, registry.recordOrInsert record = (entered, later) ∧ later.Sound ∧
      registry.Grows later ∧ later.records.find? record.id = some entered := by
  unfold recordOrInsert
  cases hfound : registry.records.find? record.id with
  | some entered => exact ⟨entered, registry, rfl, hsound, .refl registry, hfound⟩
  | none =>
    refine ⟨_, _, rfl, ⟨hsound.sinks, fun other entered hother => ?_⟩,
      ⟨fun _ _ h => h, fun other entered hother => ?_⟩, Catalog.find?_insert_self ..⟩
    · by_cases hsame : other = record.id
      · subst hsame
        rw [Catalog.find?_insert_self, Option.some_inj] at hother
        rw [← hother]
      · rw [Catalog.find?_insert_of_ne _ hsame] at hother
        exact hsound.records other entered hother
    · by_cases hsame : other = record.id
      · rw [hsame, hfound] at hother
        cases hother
      · rwa [Catalog.find?_insert_of_ne _ hsame]

/-- The sink of an addressed delivery was made. -/
theorem Addresses.sink_lt {registry : Registry W S} {emission : Emission} {delivery : Delivery}
    (h : registry.Addresses emission delivery) (hsound : registry.Sound) :
    delivery.sink < registry.made.length := by
  by_contra hbound
  have hmade := hsound.sinks _ _ h.sink
  rw [List.getElem?_eq_none (by omega)] at hmade
  cases hmade

end Registry

namespace Process

variable {α β : Type}

/-- A process whose samples are all taken makes these deliveries, looks at no file and comes to this
result. -/
inductive Delivers : Process α → List Delivery → α → Prop
  /-- The result is there. -/
  | done (result : α) : Delivers (.done result) [] result
  /-- The first delivery is taken. -/
  | deliver (delivery : Delivery) {next : Reply → Process α} {rest : List Delivery} {result : α}
      (h : Delivers (next .accepted) rest result) :
      Delivers (.deliver delivery next) (delivery :: rest) result

/-- Going on with a result adds the deliveries made then. -/
theorem Delivers.bind {process : Process α} {deliveries others : List Delivery} {result : α}
    {f : α → Process β} {final : β} (h : Delivers process deliveries result)
    (hnext : Delivers (f result) others final) :
    Delivers (process.bind f) (deliveries ++ others) final := by
  induction h with
  | done result => exact hnext
  | deliver delivery _ ih => exact .deliver delivery (ih hnext)

/-- Going on with a result that is there adds no delivery. -/
theorem Delivers.bind_done {process : Process α} {deliveries : List Delivery} {result : α}
    {f : α → Process β} {final : β} (h : Delivers process deliveries result)
    (hnext : f result = .done final) :
    Delivers (process.bind f) deliveries final := by
  have hdone : Delivers (process.bind f) (deliveries ++ []) final :=
    h.bind (hnext ▸ .done final)
  rwa [List.append_nil] at hdone

/-- Giving a result to a function adds no delivery. -/
theorem Delivers.map {process : Process α} {deliveries : List Delivery} {result : α}
    (h : Delivers process deliveries result) (f : α → β) :
    Delivers (process.map f) deliveries (f result) :=
  h.bind_done rfl

variable {W S : Type}

/-- With sinks that never fail, a run gives the deliveries to their sinks and comes to the
result. -/
theorem Delivers.run {kind : SinkKind W S} (hkind : kind.NeverFails) {process : Process α}
    {deliveries : List Delivery} {result : α} (h : Delivers process deliveries result)
    {registry : Registry W S}
    (hsinks : ∀ delivery ∈ deliveries, delivery.sink < registry.made.length) :
    process.run kind registry = (result, registry.consumeAll kind deliveries) := by
  induction h generalizing registry with
  | done result => rfl
  | deliver delivery _ ih =>
    rcases List.forall_mem_cons.mp hsinks with ⟨hfirst, hrest⟩
    obtain ⟨haccepted, hmade⟩ := registry.consume_of_neverFails hkind hfirst delivery.sample
      delivery.record
    rw [Process.run]
    simp only [haccepted]
    rw [ih (by rwa [hmade])]
    rfl

end Process

/-- A binding has the sink and the record that the registry has for a stream. -/
structure Binding.Bound {W S : Type} (registry : Registry W S) (record : StreamRecord)
    (binding : Binding) : Prop where
  /-- The sink is the stream's. -/
  sink : registry.sinks.find? record.id = some binding.sink
  /-- The record is the stream's. -/
  record : registry.records.find? record.id = some binding.record

/-- A chunk's streams are bound in a registry. -/
structure ChunkRunner.Attached {W S : Type} (registry : Registry W S) (plan : ChunkPlan)
    (runner : ChunkRunner) : Prop where
  /-- The chunk has its plan. -/
  plan_eq : runner.plan = plan
  /-- Every stream of the plan is bound. -/
  bindings : List.Forall₂ (Binding.Bound registry) plan.streams runner.bindings

/-- The streams of a block's chunks are bound in a registry. -/
structure BlockRunner.Attached {W S : Type} (registry : Registry W S) (plan : BlockPlan)
    (runner : BlockRunner) : Prop where
  /-- The block has its number of cycles. -/
  cycles : runner.cycles = plan.cycles
  /-- It has its header. -/
  sizeHeader : runner.sizeHeader = plan.sizeHeader
  /-- It has its footer. -/
  sizeFooter : runner.sizeFooter = plan.sizeFooter
  /-- Its chunks are attached. -/
  chunks : List.Forall₂ (ChunkRunner.Attached registry) plan.chunks runner.chunks

section Attach

variable {W S : Type} {kind : SinkKind W S} {registry later : Registry W S}

/-- A later registry has the same bindings. -/
theorem Binding.Bound.mono {record : StreamRecord} {binding : Binding}
    (h : Binding.Bound registry record binding) (hgrows : registry.Grows later) :
    Binding.Bound later record binding :=
  ⟨hgrows.sinks _ _ h.sink, hgrows.records _ _ h.record⟩

/-- In a later registry the same chunks are attached. -/
theorem ChunkRunner.Attached.mono {plan : ChunkPlan} {runner : ChunkRunner}
    (h : ChunkRunner.Attached registry plan runner) (hgrows : registry.Grows later) :
    ChunkRunner.Attached later plan runner :=
  ⟨h.plan_eq, h.bindings.imp fun _ _ hbound => hbound.mono hgrows⟩

/-- In a later registry the same blocks are attached. -/
theorem BlockRunner.Attached.mono {plan : BlockPlan} {runner : BlockRunner}
    (h : BlockRunner.Attached registry plan runner) (hgrows : registry.Grows later) :
    BlockRunner.Attached later plan runner :=
  ⟨h.cycles, h.sizeHeader, h.sizeFooter, h.chunks.imp fun _ _ hchunk => hchunk.mono hgrows⟩

/-- Attaching succeeds in every sound registry, only adds to it and gives what is wanted of the
registry behind it. -/
def Attaches {α : Type} (attach : Registry W S → Except ConvertError α × Registry W S)
    (wanted : Registry W S → α → Prop) : Prop :=
  ∀ registry : Registry W S, registry.Sound →
    ∃ result later, attach registry = (.ok result, later) ∧ later.Sound ∧
      registry.Grows later ∧ wanted later result

/-- What is attached one after the other is attached all together, if growing registries keep what
is wanted of the first. -/
theorem Attaches.cons {α γ : Type}
    {attach : Registry W S → Except ConvertError α × Registry W S}
    {attachRest attachAll : Registry W S → Except ConvertError (List α) × Registry W S}
    {wanted : Registry W S → γ → α → Prop} {plan : γ} {plans : List γ}
    (hfirst : Attaches attach fun later => wanted later plan)
    (hrest : Attaches attachRest fun later => List.Forall₂ (wanted later) plans)
    (hmono : ∀ {registry later : Registry W S} {result : α},
      wanted registry plan result → registry.Grows later → wanted later plan result)
    (hall : ∀ {registry between later : Registry W S} {result : α} {results : List α},
      attach registry = (.ok result, between) → attachRest between = (.ok results, later) →
        attachAll registry = (.ok (result :: results), later)) :
    Attaches attachAll fun later => List.Forall₂ (wanted later) (plan :: plans) := by
  intro registry hsound
  rcases hfirst registry hsound with ⟨result, between, hattach, hbetween, hgrows, hwanted⟩
  rcases hrest between hbetween with ⟨results, later, hothers, hlater, hgrowsRest, hresults⟩
  exact ⟨result :: results, later, hall hattach hothers, hlater, hgrows.trans hgrowsRest,
    .cons (hmono hwanted hgrowsRest) hresults⟩

/-- Streams are bound. -/
theorem ChunkRunner.bindStreams_attaches (hkind : kind.NeverFails) (records : List StreamRecord) :
    Attaches (bindStreams kind records) fun later bindings =>
      List.Forall₂ (Binding.Bound later) records bindings := by
  induction records with
  | nil => exact fun registry hsound => ⟨[], registry, rfl, hsound, .refl registry, .nil⟩
  | cons record records ih =>
    intro registry hsound
    obtain ⟨entered, first, hrecord, hfirst, hgrows, hfound⟩ :=
      registry.recordOrInsert_of_sound hsound record
    have hid : entered.id = record.id := hfirst.records _ _ hfound
    obtain ⟨number, second, hsink, hsecond, hgrowsNext, hnumber⟩ :=
      Registry.sink_of_neverFails hkind hfirst entered.id
    rcases ih second hsecond with ⟨bindings, later, hrest, hlater, hgrowsRest, hbindings⟩
    refine ⟨⟨entered, number⟩ :: bindings, later, ?_, hlater,
      (hgrows.trans hgrowsNext).trans hgrowsRest, .cons ?_ hbindings⟩
    · simp only [bindStreams, hrecord, hsink, hrest]
    · rw [hid] at hnumber
      exact ⟨hgrowsRest.sinks _ _ hnumber,
        hgrowsRest.records _ _ (hgrowsNext.records _ _ hfound)⟩

/-- Chunks are attached. -/
theorem ChunkRunner.attach_attaches (hkind : kind.NeverFails) (plan : ChunkPlan) :
    Attaches (attach kind plan) fun later runner => ChunkRunner.Attached later plan runner := by
  intro registry hsound
  obtain ⟨bindings, later, hbind, hlater, hgrows, hbindings⟩ :=
    bindStreams_attaches hkind plan.streams registry hsound
  exact ⟨⟨plan, bindings⟩, later, by simp only [attach, hbind], hlater, hgrows, rfl, hbindings⟩

/-- Chunks are attached one after the other. -/
theorem BlockRunner.attachChunks_attaches (hkind : kind.NeverFails) (plans : List ChunkPlan) :
    Attaches (attachChunks kind plans) fun later runners =>
      List.Forall₂ (ChunkRunner.Attached later) plans runners := by
  induction plans with
  | nil => exact fun registry hsound => ⟨[], registry, rfl, hsound, .refl registry, .nil⟩
  | cons plan plans ih =>
    refine (ChunkRunner.attach_attaches hkind plan).cons ih (·.mono) fun hchunk hrest => ?_
    simp only [attachChunks, hchunk, hrest]

/-- Blocks are attached. -/
theorem BlockRunner.attach_attaches (hkind : kind.NeverFails) (plan : BlockPlan) :
    Attaches (attach kind plan) fun later runner => BlockRunner.Attached later plan runner := by
  intro registry hsound
  obtain ⟨chunks, later, hattach, hlater, hgrows, hchunks⟩ :=
    attachChunks_attaches hkind plan.chunks registry hsound
  exact ⟨⟨plan.cycles, plan.sizeHeader, plan.sizeFooter, chunks⟩, later,
    by simp only [attach, hattach], hlater, hgrows, rfl, rfl, rfl, hchunks⟩

/-- Blocks are attached one after the other. -/
theorem Lane.attachBlocks_attaches (hkind : kind.NeverFails) (plans : List BlockPlan) :
    Attaches (attachBlocks kind plans) fun later runners =>
      List.Forall₂ (BlockRunner.Attached later) plans runners := by
  induction plans with
  | nil => exact fun registry hsound => ⟨[], registry, rfl, hsound, .refl registry, .nil⟩
  | cons plan plans ih =>
    refine (BlockRunner.attach_attaches hkind plan).cons ih (·.mono) fun hblock hrest => ?_
    simp only [attachBlocks, hblock, hrest]

end Attach

end SampleDemux
