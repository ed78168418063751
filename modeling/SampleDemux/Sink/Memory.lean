import SampleDemux.Registry

/-!
# Sinks that keep or drop their samples

A memory sink keeps every sample in order and remembers that it was finished. A null sink drops
every sample. Neither ever refuses one.
-/

namespace SampleDemux

/-- What a memory sink keeps. -/
structure MemorySink where
  /-- The samples, in the order in which they came. -/
  samples : List Sample := []
  /-- Whether the sink was finished. -/
  finished : Bool := false
  deriving DecidableEq, Inhabited

namespace MemorySink

/-- The in-phase components of the samples. -/
def values (sink : MemorySink) : List Float := sink.samples.map (·.inPhase)

/-- Memory sinks share nothing. -/
def kind : SinkKind Unit MemorySink where
  create _ world := (.ok {}, world)
  consume sink sample _ world :=
    (.accepted, { sink with samples := sink.samples ++ [sample] }, world)
  finish sink world := (.ok (), { sink with finished := true }, world)

end MemorySink

/-- Null sinks keep nothing and share nothing. -/
def nullSinks : SinkKind Unit Unit where
  create _ world := (.ok (), world)
  consume sink _ _ world := (.accepted, sink, world)
  finish sink world := (.ok (), sink, world)

end SampleDemux
