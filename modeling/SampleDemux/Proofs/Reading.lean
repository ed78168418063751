import SampleDemux.Proofs.OpenConverter

/-!
# The bytes behind the samples of a lane

Whatever the sinks reply and whatever the files hold, every sample of a lane is one that a chunk of
a block of the lane extracts from the bytes of one full read, made of the lane's source as reading
has left it. What the sinks are given when processes are run, alone or by turns, are such samples
and no others. Which streams the samples belong to is left to others.
-/

namespace SampleDemux

namespace Process

variable {α β : Type}

end Process

open Process

namespace Registry

variable {W S : Type} {kind : SinkKind W S} {may : Delivery → Prop}
  {registry between later : Registry W S}

/-- Sinks were given samples of a certain sort, one after the other, and nothing else was done. -/
def FedBy (kind : SinkKind W S) (may : Delivery → Prop) (registry later : Registry W S) : Prop :=
  ∃ deliveries, (∀ delivery ∈ deliveries, may delivery) ∧
    later = registry.consumeAll kind deliveries

/-- Sinks were given nothing. -/
theorem FedBy.refl (registry : Registry W S) : FedBy kind may registry registry :=
  ⟨[], List.forall_mem_nil _, rfl⟩

/-- Sinks were given some samples and then others. -/
theorem FedBy.trans (h : FedBy kind may registry between) (hnext : FedBy kind may between later) :
    FedBy kind may registry later := by
  obtain ⟨first, hfirst, rfl⟩ := h
  obtain ⟨rest, hrest, rfl⟩ := hnext
  exact ⟨first ++ rest, List.forall_mem_append.mpr ⟨hfirst, hrest⟩,
    (consumeAll_append first rest).symm⟩

/-- Samples of one sort are samples of a wider one. -/
theorem FedBy.mono {wider : Delivery → Prop} (h : FedBy kind may registry later)
    (hwider : ∀ delivery, may delivery → wider delivery) : FedBy kind wider registry later := by
  obtain ⟨deliveries, hdeliveries, rfl⟩ := h
  exact ⟨deliveries, fun delivery hmem => hwider delivery (hdeliveries delivery hmem), rfl⟩

end Registry

section Runs

variable {α W S : Type} (kind : SinkKind W S)

end Runs

namespace ChunkRunner

variable (lane : String) (runner : ChunkRunner) {source later : ByteSource} {delivery : Delivery}

/-- A sample is one of those that a chunk extracts from the bytes of one full read of a source, as
reading leaves it. -/
def Yields (runner : ChunkRunner) (source : ByteSource) (delivery : Delivery) : Prop :=
  ∃ later contents, source.Leads later ∧
    (later.read runner.plan.sizeBytes).outcome = .ok .full ∧
    values runner.plan (later.read runner.plan.sizeBytes).data = .ok contents ∧
    delivery ∈ runner.deliveries contents

end ChunkRunner

namespace BlockRunner

variable (lane : String) (start : ℕ) {source later : ByteSource} {delivery : Delivery}

end BlockRunner

namespace Lane

variable {lane later : Lane} {delivery : Delivery}

/-- A sample is one that a chunk of a block of a lane extracts, from the lane's source as reading
leaves it. -/
def Yields (lane : Lane) (delivery : Delivery) : Prop :=
  ∃ block ∈ lane.blocks, ∃ chunk ∈ block.chunks, chunk.Yields lane.source delivery

end Lane

end SampleDemux
