import SampleDemux.Command.Arguments
import SampleDemux.Command.Listing
import SampleDemux.Command.Report
import SampleDemux.Converter
import SampleDemux.DescriptorText
import SampleDemux.Sink.StreamFile

/-!
# Running commands

A command is run over a tree of files. It either prints a text or fails with a reason and prints
nothing, and only the command that writes streams changes the tree. While streams are written a lane
reads what its file holds at the time, since the file may be the one of a stream. A run that fails
part of the way leaves the samples that came before in their files, without the sidecars.
-/

namespace SampleDemux

/-- Opens the files of a tree for reading; a function makes the source of a file from its place and
its content. A directory opens, but reading from it fails. -/
def FileTree.openerWith (tree : FileTree) (source : Location → List UInt8 → ByteSource) : Opener :=
  fun path =>
    match tree.locate path with
    | .error error => .error error.message
    | .ok location =>
      match tree.entry? location with
      | none => .error FileError.notFound.message
      | some .directory => .ok (.ofReader ⟨[.failed FileError.isDirectory.message]⟩)
      | some (.file content) => .ok (source location content)

/-- Opens the files of a tree that does not change. -/
def FileTree.opener (tree : FileTree) : Opener := tree.openerWith fun _ content => .ofBytes content

/-- Opens the files of a tree that sinks may change. -/
def FileTree.sharedOpener (tree : FileTree) : Opener :=
  tree.openerWith fun location _ => .ofFile location

/-- Reads the descriptor at a path. -/
def FileTree.readDescriptor (tree : FileTree) (path : Path) : Except Cause Descriptor :=
  match tree.readText path with
  | .error error => .error ⟨[s!"Could not read descriptor {path.text}", error.message]⟩
  | .ok text =>
    match Descriptor.ofText? text with
    | none => .error (.ofMessage s!"Invalid descriptor {path.text}")
    | some descriptor => .ok descriptor

/-- Opens a recording and runs all its lanes. The registry keeps what the sinks have become. -/
def Recording.run {W S : Type} (recording : Recording) (kind : SinkKind W S) (world : W)
    (opener : Opener) (descriptor : Descriptor) : Except Cause Unit × Registry W S :=
  match (Converter.new kind world opener).openDescriptor descriptor recording.directory with
  | (.error error, converter) => (.error ⟨error.chain⟩, converter.registry)
  | (.ok (), converter) =>
    let mode := if recording.parallel then .parallel [] else .sequential
    let (report, converter) := converter.runWith mode
    match report.outcome with
    | .error error => (.error ⟨error.chain⟩, converter.registry)
    | .ok _ => (.ok (), converter.registry)

namespace Command

/-- Where the streams of a recording go: to a given place, or beside the descriptor. -/
def target (recording : Recording) (outputPath : Option Path) (container : Container)
    (sampleType : SampleType) : OutputTarget where
  base := outputPath.getD recording.descriptor.withoutExtension
  container
  sampleType

/-- Writes the streams of a recording into files. -/
def runConvert (recording : Recording) (target : OutputTarget) (tree : FileTree) :
    Except Cause Unit × FileTree :=
  match tree.readDescriptor recording.descriptor with
  | .error cause => (.error cause, tree)
  | .ok descriptor =>
    let (outcome, registry) :=
      recording.run (StreamFile.kind target) tree tree.sharedOpener descriptor
    (outcome, StreamFile.releaseAll registry)

/-- The listing of a descriptor. -/
def runInfo (path : Path) (units : Bool) (tree : FileTree) : Except Cause String :=
  match tree.readDescriptor path with
  | .error cause => .error cause
  | .ok descriptor =>
    match Listing.plans descriptor with
    | .error (lane, error) => .error ⟨[s!"Lane {lane}", error.message]⟩
    | .ok plans => .ok (Listing.render units plans)

/-- The statistics of a recording's streams. -/
def collect (recording : Recording) (tree : FileTree) :
    Except Cause (Catalog String StatisticsSink) :=
  match tree.readDescriptor recording.descriptor with
  | .error cause => .error cause
  | .ok descriptor =>
    match recording.run StatisticsSink.kind () tree.opener descriptor with
    | (.error cause, _) => .error cause
    | (.ok (), registry) => .ok registry.latest

/-- The report of a recording's streams. -/
def runStats (recording : Recording) (noHistogram : Bool) (tree : FileTree) :
    Except Cause String :=
  (collect recording tree).map fun report =>
    renderReport (if noHistogram then report.map (·.withoutHistogram) else report)

/-- Runs a command. The result is the text that is printed, or the reason why the command failed,
and the tree afterwards. -/
def run (command : Command) (tree : FileTree) : Except Cause String × FileTree :=
  match command with
  | convert recording outputPath container sampleType =>
    let (outcome, tree) :=
      runConvert recording (target recording outputPath container sampleType) tree
    (outcome.map fun () => "", tree)
  | info descriptor units => (runInfo descriptor units tree, tree)
  | stats recording noHistogram => (runStats recording noHistogram tree, tree)

/-- The descriptor that a command reads. -/
def descriptorPath : Command → Path
  | convert recording .. => recording.descriptor
  | info descriptor _ => descriptor
  | stats recording _ => recording.descriptor

/-- The files of a recording's lanes. -/
def lanePaths (recording : Recording) (descriptor : Descriptor) : List Path :=
  descriptor.files.map fun file => recording.directory.join ⟨file.url⟩

/-- The files of a descriptor's streams. -/
def outputPaths (target : OutputTarget) (descriptor : Descriptor) : List Path :=
  descriptor.lanes.flatMap fun lane => lane.blocks.flatMap fun block =>
    block.chunks.flatMap fun chunk => chunk.lumps.flatMap fun lump =>
      lump.streams.flatMap fun stream =>
        [target.samplePath stream.id, target.sidecarPath stream.id]

/-- Every path that a command follows once it has its descriptor. -/
def paths (command : Command) (descriptor : Descriptor) : List Path :=
  match command with
  | convert recording outputPath container sampleType =>
    lanePaths recording descriptor ++
      outputPaths (target recording outputPath container sampleType) descriptor
  | info .. => []
  | stats recording _ => lanePaths recording descriptor

end Command

end SampleDemux
