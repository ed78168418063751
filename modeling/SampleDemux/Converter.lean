import SampleDemux.Lane.Pipeline
import SampleDemux.Path

/-!
# Conversions

A converter is opened for one descriptor: it builds every lane's plan, opens every lane's file and
makes every stream's sink, or keeps nothing. Its lanes are then run to the end of their inputs, one
after the other or by turns, and every sink is finished if all lanes came to their ends. One after
the other, the first failure stops the run; by turns every lane comes to its own end, and the
failure of the first lane that failed is reported. A closed converter is as good as new.
-/

namespace SampleDemux

/-- Opens the file of a path for reading, or says why not. -/
abbrev Opener := Path → Except String ByteSource

/-- The lanes of one recording and the registry of their sinks. -/
structure Converter (W S : Type) where
  /-- The kind of the sinks. -/
  kind : SinkKind W S
  /-- Opens the lanes' files. -/
  opener : Opener
  /-- Sinks and records. -/
  registry : Registry W S
  /-- The lanes, in the order of their declarations. -/
  lanes : List Lane := []
  /-- Whether a descriptor is open. -/
  isOpen : Bool := false

/-- How a run came out. -/
structure RunReport where
  /-- The totals of all lanes, or the error of the run. -/
  outcome : Except ConvertError (List LaneSummary)
  /-- What an observer saw of each lane that was run, in order. -/
  seen : List (List Lane.Sight)

namespace Converter

variable {W S : Type}

/-- A converter that is not open. -/
def new (kind : SinkKind W S) (world : W) (opener : Opener) : Converter W S :=
  { kind, opener, registry := { world } }

/-- Builds the plan of a lane, opens its file below a directory and starts it. -/
def startLane (kind : SinkKind W S) (opener : Opener) (descriptor : Descriptor) (directory : Path)
    (lane : LaneDecl) (registry : Registry W S) : Except ConvertError Lane × Registry W S :=
  match LanePlan.build descriptor lane with
  | .error error => (.error (.descriptor lane.id error), registry)
  | .ok plan =>
    let path := directory.join ⟨plan.file.url⟩
    match opener path with
    | .error reason => (.error (.source lane.id (.openFailed path.text reason)), registry)
    | .ok source => Lane.start kind plan source registry

/-- Starts lanes one after the other, up to the first that cannot be started. -/
def startLanes (kind : SinkKind W S) (opener : Opener) (descriptor : Descriptor)
    (directory : Path) :
    List LaneDecl → Registry W S → Except ConvertError (List Lane) × Registry W S
  | [], registry => (.ok [], registry)
  | decl :: rest, registry =>
    match startLane kind opener descriptor directory decl registry with
    | (.error error, registry) => (.error error, registry)
    | (.ok lane, registry) =>
      match startLanes kind opener descriptor directory rest registry with
      | (.error error, registry) => (.error error, registry)
      | (.ok lanes, registry) => (.ok (lane :: lanes), registry)

/-- Opens a descriptor whose files are below a directory. -/
def openDescriptor (converter : Converter W S) (descriptor : Descriptor) (directory : Path) :
    Except ConvertError Unit × Converter W S :=
  if converter.isOpen then (.error .alreadyOpen, converter)
  else
    match startLanes converter.kind converter.opener descriptor directory descriptor.lanes
        converter.registry with
    | (.error error, registry) => (.error error, { converter with registry := registry.clear })
    | (.ok lanes, registry) => (.ok (), { converter with registry, lanes, isOpen := true })

/-- Drives lanes one after the other, up to the first that fails. -/
def driveInOrder (kind : SinkKind W S) :
    List Lane → Registry W S → RunReport × List Lane × Registry W S
  | [], registry => (⟨.ok [], []⟩, [], registry)
  | lane :: rest, registry =>
    match lane.drive.run kind registry with
    | (⟨.error error, seen, lane⟩, registry) => (⟨.error error, [seen]⟩, lane :: rest, registry)
    | (⟨.ok summary, seen, lane⟩, registry) =>
      match driveInOrder kind rest registry with
      | (report, lanes, registry) =>
        (⟨report.outcome.map (summary :: ·), seen :: report.seen⟩, lane :: lanes, registry)

/-- The totals of all lanes, or the error of the first that failed. -/
def firstFailure : List Lane.Drive → Except ConvertError (List LaneSummary)
  | [] => .ok []
  | drive :: rest =>
    match drive.outcome with
    | .error error => .error error
    | .ok summary => (firstFailure rest).map (summary :: ·)

/-- Drives all lanes by turns, each to its own end. -/
def driveByTurns (kind : SinkKind W S) (schedule : List Nat) (lanes : List Lane)
    (registry : Registry W S) : RunReport × List Lane × Registry W S :=
  let (drives, registry) := Process.interleave kind schedule (lanes.map Lane.drive) registry
  (⟨firstFailure drives, drives.map (·.seen)⟩, drives.map (·.lane), registry)

/-- How the lanes of a run share the time. -/
inductive RunMode where
  /-- One after the other. -/
  | sequential
  /-- By turns, as a schedule says. -/
  | parallel (schedule : List Nat)
  deriving DecidableEq, Repr

/-- Drives the lanes of an open converter, and finishes all sinks if no lane failed. -/
def runWith (converter : Converter W S) (mode : RunMode) : RunReport × Converter W S :=
  if converter.isOpen then
    let (report, lanes, registry) :=
      match mode with
      | .sequential => driveInOrder converter.kind converter.lanes converter.registry
      | .parallel schedule =>
        driveByTurns converter.kind schedule converter.lanes converter.registry
    match report.outcome with
    | .error _ => (report, { converter with lanes, registry })
    | .ok _ =>
      match registry.finishAll converter.kind with
      | (.error error, registry) =>
        ({ report with outcome := .error error }, { converter with lanes, registry })
      | (.ok (), registry) => (report, { converter with lanes, registry })
  else (⟨.error .notOpen, []⟩, converter)

/-- Runs the lanes one after the other. -/
def run (converter : Converter W S) :
    Except ConvertError (List LaneSummary) × Converter W S :=
  let (report, converter) := converter.runWith .sequential
  (report.outcome, converter)

/-- Runs the lanes by turns. -/
def runParallel (converter : Converter W S) (schedule : List Nat) :
    Except ConvertError (List LaneSummary) × Converter W S :=
  let (report, converter) := converter.runWith (.parallel schedule)
  (report.outcome, converter)

/-- Runs one cycle of a lane. -/
def stepLane (converter : Converter W S) (index : Nat) :
    Option (Except ConvertError Step) × Converter W S :=
  match converter.lanes[index]? with
  | none => (none, converter)
  | some lane =>
    let ((outcome, lane), registry) := lane.step.run converter.kind converter.registry
    (some outcome, { converter with registry, lanes := converter.lanes.set index lane })

/-- Runs a lane to the end of its input. -/
def runLane (converter : Converter W S) (index : Nat) :
    Option (Except ConvertError LaneSummary) × Converter W S :=
  match converter.lanes[index]? with
  | none => (none, converter)
  | some lane =>
    let ((outcome, lane), registry) := lane.run.run converter.kind converter.registry
    (some outcome, { converter with registry, lanes := converter.lanes.set index lane })

/-- Closes the input of a lane. -/
def closeLane (converter : Converter W S) (index : Nat) : Option Unit × Converter W S :=
  match converter.lanes[index]? with
  | none => (none, converter)
  | some lane => (some (), { converter with lanes := converter.lanes.set index lane.close })

/-- Lets go of lanes, sinks and records. -/
def close (converter : Converter W S) : Converter W S :=
  { converter with lanes := [], registry := converter.registry.clear, isOpen := false }

end Converter

end SampleDemux
