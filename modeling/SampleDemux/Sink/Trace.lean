import SampleDemux.Registry

/-!
# Sinks with a common log

Trace sinks write every sample they take into one log, in the order in which the samples come. They
can be told to fail: when they are made, after a number of samples, or when they are finished. A
sample that makes a sink fail is not written.
-/

namespace SampleDemux

/-- Where trace sinks fail. -/
structure FaultPlan where
  /-- Streams whose sink cannot be made. -/
  create : List String := []
  /-- Streams whose sink refuses all samples after so many. -/
  consume : List (String × Nat) := []
  /-- Streams whose sink cannot be finished. -/
  finish : List String := []
  /-- Streams whose sink panics after so many samples. -/
  panics : List (String × Nat) := []
  deriving DecidableEq, Repr

/-- What a trace sink keeps. -/
structure TraceSink where
  /-- The stream that it was made for. -/
  stream : String
  /-- Samples that it took. -/
  accepted : Nat := 0
  deriving DecidableEq, Repr

/-- The samples that trace sinks took, each with its sink's stream. -/
abbrev TraceLog := List (String × Sample)

namespace TraceSink

/-- Whether a sink that took so many samples has come to the limit of its stream. -/
def limited (limits : List (String × Nat)) (sink : TraceSink) : Bool :=
  match limits.lookup sink.stream with
  | none => false
  | some limit => limit ≤ sink.accepted

/-- Trace sinks share their log. -/
def kind (faults : FaultPlan) : SinkKind TraceLog TraceSink where
  create stream log :=
    if stream ∈ faults.create then (.error (.ofMessage "create failed: permission denied"), log)
    else (.ok { stream }, log)
  consume sink sample _ log :=
    if limited faults.panics sink then (.panicked, sink, log)
    else if limited faults.consume sink then
      (.refused (.ofMessage "write failed: disk full"), sink, log)
    else (.accepted, { sink with accepted := sink.accepted + 1 }, log ++ [(sink.stream, sample)])
  finish sink log :=
    if sink.stream ∈ faults.finish then (.error (.ofMessage "flush failed"), sink, log)
    else (.ok (), sink, log)

end TraceSink

end SampleDemux
