import SampleDemux.Catalog
import SampleDemux.Descriptor
import SampleDemux.Error
import SampleDemux.Location
import SampleDemux.Sample

/-!
# Sinks and their registry

A sink consumes the samples of a stream, one at a time, and is finished once the conversion has
ended. A kind of sink says how its sinks are made, what each one keeps, and what all of them share.
The registry makes the sink of a stream when the stream is first asked for and gives the same one
out on every later request; beside it, it keeps the record that was first entered for a stream.
Sinks are numbered in the order in which they were made, and a number stays good when the registry
forgets its sinks.

What uses sinks is a process: it delivers one sample, waits for the reply, and goes on. It may also
look at a part of a file, which a sink may be writing at that time. A process can be run on its own,
or several processes can be run by turns as a schedule says.
-/

namespace SampleDemux

/-- What a sink answers to a sample. -/
inductive Reply where
  /-- The sample was taken. -/
  | accepted
  /-- The sample was refused, and why. -/
  | refused (cause : Cause)
  /-- The sink panicked. -/
  | panicked
  deriving DecidableEq, Repr

/-- A kind of sink. `W` is what all its sinks share, `S` is what each one keeps. -/
structure SinkKind (W S : Type) where
  /-- Makes the sink of a stream. -/
  create : String → W → Except Cause S × W
  /-- Gives a sample and the record of its stream to a sink. -/
  consume : S → Sample → StreamRecord → W → Reply × S × W
  /-- Tells a sink that no sample follows. -/
  finish : S → W → Except Cause Unit × S × W
  /-- What a part of a file holds at the time. -/
  look : FilePart → W → List UInt8 := fun _ _ => []

/-- A sink that was made. -/
structure MadeSink (S : Type) where
  /-- The stream that it was made for. -/
  stream : String
  /-- What it keeps. -/
  state : S
  deriving DecidableEq

/-- The sinks and records of streams. -/
structure Registry (W S : Type) where
  /-- What all sinks share. -/
  world : W
  /-- Every sink that was ever made, in order; a sink's number is its place. -/
  made : List (MadeSink S) := []
  /-- The number of the sink of each stream. -/
  sinks : Catalog String Nat := {}
  /-- The record of each stream. -/
  records : Catalog String StreamRecord := {}

namespace Registry

variable {W S : Type}

/-- The number of a stream's sink, which is made if there is none. A sink that cannot be made is
not entered. -/
def sink (kind : SinkKind W S) (registry : Registry W S) (stream : String) :
    Except ConvertError Nat × Registry W S :=
  match registry.sinks.find? stream with
  | some number => (.ok number, registry)
  | none =>
    match kind.create stream registry.world with
    | (.error cause, world) => (.error (.sink stream cause), { registry with world })
    | (.ok state, world) =>
      (.ok registry.made.length,
        { registry with
          world
          made := registry.made ++ [⟨stream, state⟩]
          sinks := registry.sinks.insert stream registry.made.length })

/-- The record of a stream: the one that is entered, or else the given one, which is entered. -/
def recordOrInsert (registry : Registry W S) (record : StreamRecord) :
    StreamRecord × Registry W S :=
  match registry.records.find? record.id with
  | some entered => (entered, registry)
  | none => (record, { registry with records := registry.records.insert record.id record })

/-- The record of a stream. -/
def record? (registry : Registry W S) (stream : String) : Option StreamRecord :=
  registry.records.find? stream

/-- The records of all streams, in ascending order of their identities. -/
def recordList (registry : Registry W S) : List StreamRecord := registry.records.values

/-- Forgets the sinks and records of all streams. -/
def clear (registry : Registry W S) : Registry W S :=
  { registry with sinks := {}, records := {} }

/-- Gives a sample to a sink. -/
def consume (kind : SinkKind W S) (registry : Registry W S) (number : Nat) (sample : Sample)
    (record : StreamRecord) : Reply × Registry W S :=
  match registry.made[number]? with
  | none => (.refused (.ofMessage s!"no sink {number}"), registry)
  | some sink =>
    let (reply, state, world) := kind.consume sink.state sample record registry.world
    (reply, { registry with world, made := registry.made.set number { sink with state } })

/-- Finishes one sink. -/
def finish (kind : SinkKind W S) (registry : Registry W S) (number : Nat) :
    Except Cause Unit × Registry W S :=
  match registry.made[number]? with
  | none => (.ok (), registry)
  | some sink =>
    let (outcome, state, world) := kind.finish sink.state registry.world
    (outcome, { registry with world, made := registry.made.set number { sink with state } })

/-- Finishes sinks in order, up to the first one that fails. -/
def finishEntries (kind : SinkKind W S) (registry : Registry W S) :
    List (String × Nat) → Except ConvertError Unit × Registry W S
  | [] => (.ok (), registry)
  | (stream, number) :: rest =>
    match registry.finish kind number with
    | (.error cause, registry) => (.error (.sink stream cause), registry)
    | (.ok (), registry) => finishEntries kind registry rest

/-- Finishes the sinks of all streams in ascending order of their identities, up to the first one
that fails. -/
def finishAll (kind : SinkKind W S) (registry : Registry W S) :
    Except ConvertError Unit × Registry W S :=
  registry.finishEntries kind registry.sinks.entries

/-- What the last sink that was made for each stream keeps, in ascending order of the streams. -/
def latest (registry : Registry W S) : Catalog String S :=
  registry.made.foldl (fun catalog sink => catalog.insert sink.stream sink.state) {}

end Registry

/-- One sample on its way to a sink. -/
structure Delivery where
  /-- Number of the sink. -/
  sink : Nat
  /-- The sample. -/
  sample : Sample
  /-- The record of the sample's stream. -/
  record : StreamRecord
  deriving DecidableEq

/-- A computation that delivers samples, one at a time, and looks at files before it comes to its
result. -/
inductive Process (α : Type) where
  /-- Has come to its result. -/
  | done (result : α)
  /-- Delivers a sample and goes on with the sink's reply. -/
  | deliver (delivery : Delivery) (next : Reply → Process α)
  /-- Looks at a part of a file and goes on with what is there. -/
  | look (part : FilePart) (next : List UInt8 → Process α)

namespace Process

variable {α β : Type}

/-- Goes on with the result of a process. -/
def bind : Process α → (α → Process β) → Process β
  | done result, f => f result
  | deliver delivery next, f => deliver delivery fun reply => bind (next reply) f
  | look part next, f => look part fun data => bind (next data) f

/-- Gives the result of a process to a function. -/
def map (f : α → β) (process : Process α) : Process β := process.bind fun result => done (f result)

variable {W S : Type}

/-- Runs a process to its result. -/
def run (kind : SinkKind W S) : Process α → Registry W S → α × Registry W S
  | done result, registry => (result, registry)
  | deliver delivery next, registry =>
    let (reply, registry) :=
      registry.consume kind delivery.sink delivery.sample delivery.record
    run kind (next reply) registry
  | look part next, registry => run kind (next (kind.look part registry.world)) registry

/-- Makes the next delivery of a process, or its next look at a file, if it has one. -/
def step (kind : SinkKind W S) : Process α → Registry W S → Process α × Registry W S
  | done result, registry => (done result, registry)
  | deliver delivery next, registry =>
    let (reply, registry) :=
      registry.consume kind delivery.sink delivery.sample delivery.record
    (next reply, registry)
  | look part next, registry => (next (kind.look part registry.world), registry)

/-- Runs processes to their results, one after the other. -/
def runEach (kind : SinkKind W S) : List (Process α) → Registry W S → List α × Registry W S
  | [], registry => ([], registry)
  | process :: rest, registry =>
    let (result, registry) := process.run kind registry
    let (results, registry) := runEach kind rest registry
    (result :: results, registry)

/-- Runs processes by turns. Each entry of the schedule names the process that goes on by one step;
what is left when the schedule ends is run in order. -/
def interleave (kind : SinkKind W S) :
    List Nat → List (Process α) → Registry W S → List α × Registry W S
  | [], processes, registry => runEach kind processes registry
  | turn :: schedule, processes, registry =>
    match processes[turn]? with
    | none => interleave kind schedule processes registry
    | some process =>
      let (process, registry) := process.step kind registry
      interleave kind schedule (processes.set turn process) registry

end Process

end SampleDemux
