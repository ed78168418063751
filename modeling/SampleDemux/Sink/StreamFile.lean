import SampleDemux.FileTree
import SampleDemux.Output.Sidecar
import SampleDemux.Output.Wave64
import SampleDemux.Registry

/-!
# Sinks that write files

A stream's file is made when its first sample comes, and the directories that lead there with it.
Every sample appends its components, one or two as the record that comes with it says. Finishing
completes the file and writes the sidecar, which tells of the record that came first; a stream
without samples writes nothing. Bytes that a sink still holds back go out when it is let go.
-/

namespace SampleDemux

/-- Writes into the file of a stream. -/
inductive FileWriter where
  /-- Nothing but values. -/
  | raw (output : BufferedWriter)
  /-- A Wave64 file. -/
  | wave64 (output : Wave64Writer)
  deriving DecidableEq

namespace FileWriter

/-- Writes bytes of values. -/
def write (data content : List UInt8) : FileWriter → FileWriter × List UInt8
  | raw output => let (output, content) := output.write data content; (raw output, content)
  | wave64 output => let (output, content) := output.write data content; (wave64 output, content)

/-- Puts the bytes that are held back into the content. -/
def flush (content : List UInt8) : FileWriter → FileWriter × List UInt8
  | raw output => let (output, content) := output.flush content; (raw output, content)
  | wave64 output => let (output, content) := output.flush content; (wave64 output, content)

/-- Completes the file. -/
def finish (content : List UInt8) : FileWriter → FileWriter × List UInt8
  | raw output => let (output, content) := output.flush content; (raw output, content)
  | wave64 output => let (output, content) := output.finish content; (wave64 output, content)

end FileWriter

/-- A file that is being written. -/
structure OpenFile where
  /-- Where it is. -/
  location : Location
  /-- Writes into it. -/
  writer : FileWriter
  /-- The record that came with the first sample. -/
  record : StreamRecord
  deriving DecidableEq

/-- What a sink keeps of its stream. -/
structure StreamFile where
  /-- The stream. -/
  stream : String
  /-- The file, once there was a sample. -/
  file : Option OpenFile := none
  /-- Number of samples so far. -/
  samples : Nat := 0
  deriving DecidableEq

namespace StreamFile

/-- The attributes of a stream's Wave64 file. -/
def wave64Format (target : OutputTarget) (record : StreamRecord) : Wave64Format where
  sampleRate := (roundBetween 0 0xffffffff record.sampleFrequency).toNat
  channels := if record.isComplex then 2 else 1
  bitsPerSample := target.sampleType.bits
  float := target.sampleType.isFloat

/-- A writer for a new file, and what it has written. -/
def newWriter (target : OutputTarget) (record : StreamRecord) : FileWriter × List UInt8 :=
  match target.container with
  | .raw => (.raw {}, [])
  | .wave64 =>
    let (output, content) := Wave64Writer.start (wave64Format target record) []
    (.wave64 output, content)

/-- Makes the file of a stream, and the directories that lead there. -/
def openFile (target : OutputTarget) (stream : String) (record : StreamRecord) (tree : FileTree) :
    Except Cause OpenFile × FileTree :=
  let path := target.samplePath stream
  match tree.ensureDirectories (path.parent?.getD ⟨""⟩) with
  | (.error error, tree) => (.error (.ofMessage error.message), tree)
  | (.ok (), tree) =>
    match tree.createFile path with
    | (.error error, tree) => (.error ⟨[s!"Could not create {path.text}", error.message]⟩, tree)
    | (.ok location, tree) =>
      let (writer, content) := newWriter target record
      (.ok { location, writer, record }, tree.put location (.file content))

/-- The bytes of a sample: its components as values, the second one only of a complex stream. A
real sample of a complex stream has none and writes 0 for it. -/
def encodeSample (type : SampleType) (isComplex : Bool) (sample : Sample) : List UInt8 :=
  let first := type.encode sample.inPhase
  if isComplex then first ++ type.encode (sample.quadrature?.getD 0) else first

/-- Appends a sample to the file. -/
def append (target : OutputTarget) (sink : StreamFile) (file : OpenFile) (sample : Sample)
    (record : StreamRecord) (tree : FileTree) : StreamFile × FileTree :=
  let data := encodeSample target.sampleType record.isComplex sample
  let (writer, content) := file.writer.write data (tree.contentAt file.location)
  ({ sink with file := some { file with writer }, samples := sink.samples + 1 },
    tree.put file.location (.file content))

/-- Takes a sample, and makes the file first if need be. -/
def consume (target : OutputTarget) (sink : StreamFile) (sample : Sample) (record : StreamRecord)
    (tree : FileTree) : Reply × StreamFile × FileTree :=
  match sink.file with
  | some file => (.accepted, sink.append target file sample record tree)
  | none =>
    match openFile target sink.stream record tree with
    | (.error cause, tree) => (.refused cause, sink, tree)
    | (.ok file, tree) => (.accepted, sink.append target file sample record tree)

/-- The sidecar of a file. -/
def sidecar (target : OutputTarget) (sink : StreamFile) (record : StreamRecord) : Sidecar where
  file := (target.samplePath sink.stream).fileName?.getD ""
  container := target.container
  sampleType := target.sampleType
  samples := sink.samples
  stream := record

/-- Completes the file and writes the sidecar. -/
def finish (target : OutputTarget) (sink : StreamFile) (tree : FileTree) :
    Except Cause Unit × StreamFile × FileTree :=
  match sink.file with
  | none => (.ok (), sink, tree)
  | some file =>
    let (writer, content) := file.writer.finish (tree.contentAt file.location)
    let tree := tree.put file.location (.file content)
    let path := target.sidecarPath sink.stream
    let text := (sidecar target sink file.record).render
    let sink := { sink with file := some { file with writer } }
    match tree.writeFile path text.toUTF8.toList with
    | (.error error, tree) =>
      (.error ⟨[s!"Could not write {path.text}", error.message]⟩, sink, tree)
    | (.ok (), tree) => (.ok (), sink, tree)

/-- Lets a sink go: what it holds back goes out. -/
def release (sink : StreamFile) (tree : FileTree) : FileTree :=
  match sink.file with
  | none => tree
  | some file =>
    let (_, content) := file.writer.flush (tree.contentAt file.location)
    tree.put file.location (.file content)

/-- Lets the sinks of all streams go, in ascending order of the streams. -/
def releaseAll (registry : Registry FileTree StreamFile) : FileTree :=
  registry.sinks.values.foldl
    (fun tree number =>
      match registry.made[number]? with
      | none => tree
      | some sink => sink.state.release tree)
    registry.world

/-- The sinks of a target share the tree of files. -/
def kind (target : OutputTarget) : SinkKind FileTree StreamFile where
  create stream tree := (.ok { stream }, tree)
  consume := consume target
  finish := finish target
  look part tree := part.cut (tree.contentAt part.location)

end StreamFile

end SampleDemux
