import SampleDemux.Proofs.FileContents
import SampleDemux.Proofs.FileNames
import SampleDemux.Proofs.SampleEncoding
import SampleDemux.Proofs.SidecarText

/-!
# Files with the samples of a stream

A sink that writes files takes samples and is finished, in any order and any number of times. Its
file has the bytes of all samples in order, behind a header if the container has one, and the
description counts these samples; a sink that was never given a sample touches no file.
-/

namespace SampleDemux

/-- A file with some data, as its container keeps them. -/
def Container.file (container : Container) (format : Wave64Format) (data : List UInt8) :
    List UInt8 :=
  match container with
  | .raw => data
  | .wave64 => format.header (104 + data.length) (24 + data.length) ++ data

namespace FileWriter

/-- A writer for a container has written data into a content, some of which it may hold back. -/
inductive Holds (format : Wave64Format) (data : List UInt8) :
    Container → FileWriter → List UInt8 → Prop where
  /-- A writer of nothing but values has written them. -/
  | raw {output : BufferedWriter} {content : List UInt8} (h : output.Appended content data) :
      Holds format data .raw (raw output) content
  /-- A writer of a Wave64 file has written a header and the values. -/
  | wave64 {output : Wave64Writer} {content : List UInt8} {fileSize dataSize : ℕ}
      (h : Wave64Writer.Holds (output, content) format fileSize dataSize data) :
      Holds format data .wave64 (wave64 output) content

variable {format : Wave64Format} {data content : List UInt8} {container : Container}
  {writer : FileWriter}

/-- What is written comes behind the data. -/
theorem Holds.write (h : writer.Holds format data container content) (bytes : List UInt8) :
    (writer.write bytes content).1.Holds format (data ++ bytes) container
      (writer.write bytes content).2 := by
  cases h with
  | raw h => exact .raw (h.write bytes)
  | wave64 h => exact .wave64 (h.write bytes)

/-- A writer that finishes a file has written the same data. -/
theorem Holds.finish (h : writer.Holds format data container content) :
    (writer.finish content).1.Holds format data container (writer.finish content).2 := by
  cases h with
  | raw h => exact .raw h.flush
  | wave64 h => exact .wave64 h.finish

/-- A finished file has all data. -/
theorem Holds.finish_eq (h : writer.Holds format data container content) :
    (writer.finish content).2 = container.file format data := by
  cases h with
  | raw h =>
    rw [FileWriter.finish, h.flush_eq]
    rfl
  | wave64 h =>
    have hfinish := h.finish_eq
    rw [FileWriter.finish, hfinish]
    rfl

end FileWriter

/-- What is asked of the sink of a stream. -/
inductive StreamCall where
  /-- To take a sample. -/
  | consume (sample : Sample)
  /-- To complete the file. -/
  | finish
  deriving DecidableEq

namespace StreamCall

/-- The sample of a call. -/
def sample? : StreamCall → Option Sample
  | consume sample => some sample
  | finish => none

/-- The samples of calls. -/
def samples (calls : List StreamCall) : List Sample := calls.filterMap (·.sample?)

/-- The sample of one more call comes behind the others. -/
theorem samples_concat (calls : List StreamCall) (call : StreamCall) :
    samples (calls ++ [call]) = samples calls ++ call.sample?.toList := by
  rw [samples, List.filterMap_append]
  cases call with
  | consume sample => rfl
  | finish => rfl

end StreamCall

namespace StreamFile

section Sink

variable (target : OutputTarget) (record : StreamRecord)

/-- The sink and the files after a call, if it succeeded. -/
def serve? (state : StreamFile × FileTree) : StreamCall → Option (StreamFile × FileTree)
  | .consume sample =>
    match consume target state.1 sample record state.2 with
    | (.accepted, next) => some next
    | _ => none
  | .finish =>
    match finish target state.1 state.2 with
    | (.ok (), next) => some next
    | _ => none

/-- The sink and the files after calls that all succeeded. -/
def run? (state : StreamFile × FileTree) (calls : List StreamCall) :
    Option (StreamFile × FileTree) := calls.foldlM (serve? target record) state

/-- A new writer has written no values. -/
theorem holds_newWriter :
    (newWriter target record).1.Holds (wave64Format target record) [] target.container
      (newWriter target record).2 := by
  rw [newWriter]
  cases target.container with
  | raw => exact .raw BufferedWriter.appended_new
  | wave64 =>
    have hstart := Wave64Writer.holds_start (wave64Format target record)
    dsimp only
    generalize Wave64Writer.start (wave64Format target record) [] = started at hstart ⊢
    rcases started with ⟨output, content⟩
    exact .wave64 hstart

end Sink

/-- A sink has its file, in which the samples so far are written, and no directory has changed since
the file was made. -/
structure Going (target : OutputTarget) (record : StreamRecord) (stream : String)
    (opened : FileTree) (samples : List Sample) (sink : StreamFile) (file : OpenFile)
    (tree : FileTree) : Prop where
  /-- The sink is that of the stream. -/
  stream_eq : sink.stream = stream
  /-- The sink has the file. -/
  file_eq : sink.file = some file
  /-- Samples are counted. -/
  samples_eq : sink.samples = samples.length
  /-- The record is that of the samples. -/
  record_eq : file.record = record
  /-- The file is at its path. -/
  admits : tree.Admits (target.samplePath stream) file.location
  /-- The samples are written. -/
  holds : file.writer.Holds (wave64Format target record)
    (payload target.sampleType record.isComplex samples) target.container
    (tree.contentAt file.location)
  /-- Directories stay. -/
  sameDirectories : opened.SameDirectories tree

variable {target : OutputTarget} {record : StreamRecord} {stream : String} {opened tree : FileTree}
  {samples : List Sample} {sink : StreamFile} {file : OpenFile}

/-- A sink that has made its file has written no samples yet. -/
theorem going_openFile {before : FileTree}
    (h : openFile target stream record before = (.ok file, opened)) :
    Going target record stream opened [] { stream, file := some file } file opened := by
  unfold openFile at h
  dsimp only at h
  split at h
  · cases h
  · rename_i tree hdirectories
    split at h
    · cases h
    · rename_i location made hcreate
      have hadmits := FileTree.admits_of_createFile (congrArg Prod.fst hcreate)
      have hmade := (Prod.mk.inj (hadmits.createFile_eq.symm.trans hcreate)).2
      have hfile : file = ⟨location, (newWriter target record).1, record⟩ :=
        (Except.ok.inj (Prod.mk.inj h).1).symm
      have hopened : made.put location (.file (newWriter target record).2) = opened :=
        (Prod.mk.inj h).2
      have hagain : made.Admits (target.samplePath stream) location :=
        hmade ▸ (hadmits.put []).admits_iff.mp hadmits
      subst hfile
      refine ⟨rfl, rfl, rfl, rfl, ?_, ?_, .refl opened⟩
      · exact hopened ▸ (hagain.put _).admits_iff.mp hagain
      · rw [← hopened, FileTree.contentAt_put]
        exact holds_newWriter target record

/-- A sample that is appended comes behind the samples so far. -/
theorem Going.append (h : Going target record stream opened samples sink file tree)
    (sample : Sample) :
    ∃ current, Going target record stream opened (samples ++ [sample])
      (sink.append target file sample record tree).1 current
      (sink.append target file sample record tree).2 := by
  have hwritten := h.holds.write (sample.bytes target.sampleType record.isComplex)
  rw [← payload_concat] at hwritten
  rw [StreamFile.append, Sample.encodeSample_eq]
  dsimp only
  refine ⟨_, h.stream_eq, rfl, ?_, h.record_eq, (h.admits.put _).admits_iff.mp h.admits, ?_,
    h.sameDirectories.trans (h.admits.put _)⟩
  · rw [List.length_append, List.length_singleton, h.samples_eq]
  · rw [FileTree.contentAt_put]
    exact hwritten

/-- A sink with a file takes every sample. -/
theorem Going.consume_eq (h : Going target record stream opened samples sink file tree)
    (sample : Sample) :
    consume target sink sample record tree =
      (.accepted, sink.append target file sample record tree) := by
  rw [consume, h.file_eq]

/-- The description of a stream is not at the place of its samples. -/
theorem location_ne {place location : Location}
    (hsamples : tree.Admits (target.samplePath stream) location)
    (hsidecar : tree.Admits (target.sidecarPath stream) place) : location ≠ place := by
  rintro rfl
  have hlocate := hsamples.locate_eq
  rw [OutputTarget.samplePath_eq] at hlocate
  have hextension : target.container.extension = ".yaml" :=
    (OutputTarget.eq_of_locate List.mem_cons_self (List.mem_cons_of_mem _ List.mem_cons_self)
      hlocate hsidecar.locate_eq).1
  exact target.container.append_extension_ne "" "" (by rw [hextension])

/-- The text that describes the file of a sink. -/
def sidecarText (target : OutputTarget) (sink : StreamFile) (record : StreamRecord) : String :=
  (sidecar target sink record).render

/-- A sink with a file is finished if the description can be written. Then the file has all samples,
and the description tells of them. -/
theorem Going.finish (h : Going target record stream opened samples sink file tree)
    {place : Location} (hplace : opened.Admits (target.sidecarPath stream) place) :
    ∃ current later,
      finish target sink tree = (.ok (), { sink with file := some current }, later) ∧
      Going target record stream opened samples { sink with file := some current } current later ∧
      later.read (target.samplePath stream) = .ok (target.container.file
        (wave64Format target record) (payload target.sampleType record.isComplex samples)) ∧
      later.read (target.sidecarPath stream) =
        .ok (sidecarText target sink record).toUTF8.toList := by
  obtain ⟨writer, content, hfinish⟩ : ∃ writer content,
      file.writer.finish (tree.contentAt file.location) = (writer, content) := ⟨_, _, rfl⟩
  have hholds := h.holds.finish
  have hcontent := h.holds.finish_eq
  rw [hfinish] at hholds hcontent
  dsimp only at hholds hcontent
  have hsidecar := h.sameDirectories.admits_iff.mp hplace
  obtain ⟨later, hwrite, hsame, hkept, hsamples, htext⟩ := h.admits.exists_writeFile hsidecar
    (location_ne h.admits hsidecar) content (sidecarText target sink record).toUTF8.toList
  refine ⟨{ file with writer }, later, ?_,
    ⟨h.stream_eq, rfl, h.samples_eq, h.record_eq, ?_, ?_, ?_⟩, ?_, htext⟩
  · rw [StreamFile.finish, h.file_eq]
    dsimp only
    rw [hfinish]
    dsimp only
    rw [h.record_eq, h.stream_eq, ← sidecarText, hwrite]
  · exact hsame.admits_iff.mp h.admits
  · rw [hkept]
    exact hholds
  · exact h.sameDirectories.trans hsame
  · rw [hsamples, hcontent]

/-- The description of a sink that was finished could be written. -/
theorem Going.exists_admits_of_finish (h : Going target record stream opened samples sink file tree)
    {next : StreamFile} {later : FileTree}
    (hfinish : StreamFile.finish target sink tree = (.ok (), next, later)) :
    ∃ place, opened.Admits (target.sidecarPath stream) place := by
  rw [StreamFile.finish, h.file_eq, h.stream_eq] at hfinish
  dsimp only at hfinish
  split at hfinish
  · cases hfinish
  · rename_i hwritten
    obtain ⟨place, hplace⟩ := FileTree.exists_admits_of_writeFile hwritten
    exact ⟨place, (h.sameDirectories.trans (h.admits.put _)).admits_iff.mpr hplace⟩

section Run

variable {state next : StreamFile × FileTree} {call : StreamCall} {calls : List StreamCall}

/-- Where a sink stands after some samples: it is new, or it goes on with the file that it made. -/
inductive Stands (target : OutputTarget) (record : StreamRecord) (stream : String)
    (tree : FileTree) : List Sample → StreamFile × FileTree → Prop where
  /-- There were no samples, and nothing has changed. -/
  | new : Stands target record stream tree [] ({ stream }, tree)
  /-- The file was made, and has the samples. -/
  | going {file current : OpenFile} {opened later : FileTree} {samples : List Sample}
      {sink : StreamFile} (hopen : openFile target stream record tree = (.ok file, opened))
      (hgoing : Going target record stream opened samples sink current later) :
      Stands target record stream tree samples (sink, later)

/-- A sink that takes its first sample has made its file. -/
theorem exists_openFile_of_serve {sample : Sample}
    (h : serve? target record ({ stream }, tree) (.consume sample) = some next) :
    ∃ file opened, openFile target stream record tree = (.ok file, opened) := by
  rw [serve?, consume] at h
  dsimp only at h
  rcases hopen : openFile target stream record tree with ⟨result, opened⟩
  cases result with
  | error cause =>
    rw [hopen] at h
    cases h
  | ok file => exact ⟨file, opened, rfl⟩

/-- A sink takes its first sample if it can make its file. -/
theorem serve_first (hopen : openFile target stream record tree = (.ok file, opened))
    (sample : Sample) :
    serve? target record ({ stream }, tree) (.consume sample) =
      some (StreamFile.append target { stream } file sample record opened) := by
  rw [serve?, consume]
  dsimp only
  rw [hopen]

/-- A sink with a file takes every sample. -/
theorem Going.serve_consume (h : Going target record stream opened samples sink file tree)
    (sample : Sample) :
    serve? target record (sink, tree) (.consume sample) =
      some (sink.append target file sample record tree) := by
  rw [serve?, h.consume_eq]

/-- A sink with a file that was finished could write its description. -/
theorem Going.exists_admits_of_serve (h : Going target record stream opened samples sink file tree)
    (hserve : serve? target record (sink, tree) .finish = some next) :
    ∃ place, opened.Admits (target.sidecarPath stream) place := by
  rw [serve?] at hserve
  dsimp only at hserve
  rcases hfinish : StreamFile.finish target sink tree with ⟨result, later⟩
  cases result with
  | error cause =>
    rw [hfinish] at hserve
    cases hserve
  | ok _ => exact h.exists_admits_of_finish hfinish

/-- A call that succeeds leads on to where its sample is written. -/
theorem Stands.serve (h : Stands target record stream tree samples state)
    (hserve : serve? target record state call = some next) :
    Stands target record stream tree (samples ++ call.sample?.toList) next := by
  cases h with
  | new =>
    cases call with
    | consume sample =>
      obtain ⟨file, opened, hopen⟩ := exists_openFile_of_serve hserve
      obtain ⟨current, hgoing⟩ := (going_openFile hopen).append sample
      rw [serve_first hopen] at hserve
      rw [← Option.some.inj hserve]
      exact .going hopen hgoing
    | finish =>
      rw [← Option.some.inj hserve]
      exact .new
  | going hopen hgoing =>
    cases call with
    | consume sample =>
      obtain ⟨current, hlater⟩ := hgoing.append sample
      rw [hgoing.serve_consume] at hserve
      rw [← Option.some.inj hserve]
      exact .going hopen hlater
    | finish =>
      obtain ⟨place, hplace⟩ := hgoing.exists_admits_of_serve hserve
      obtain ⟨current, later, hfinish, hlater, -, -⟩ := hgoing.finish hplace
      rw [serve?, hfinish] at hserve
      rw [← Option.some.inj hserve, StreamCall.sample?, Option.toList_none, List.append_nil]
      exact .going hopen hlater

/-- Every call succeeds if the file and its description can be made. -/
theorem Stands.exists_serve (h : Stands target record stream tree samples state)
    (hopen : openFile target stream record tree = (.ok file, opened)) {place : Location}
    (hplace : opened.Admits (target.sidecarPath stream) place) (call : StreamCall) :
    ∃ next, serve? target record state call = some next := by
  cases h with
  | new =>
    cases call with
    | consume sample => exact ⟨_, serve_first hopen sample⟩
    | finish => exact ⟨_, rfl⟩
  | going hsame hgoing =>
    cases call with
    | consume sample => exact ⟨_, hgoing.serve_consume sample⟩
    | finish =>
      obtain ⟨-, rfl⟩ := Prod.mk.inj (hopen.symm.trans hsame)
      obtain ⟨current, later, hfinish, -⟩ := hgoing.finish hplace
      rw [serve?, hfinish]
      exact ⟨_, rfl⟩

/-- A call behind others is served after them. -/
theorem run?_concat (target : OutputTarget) (record : StreamRecord) (state : StreamFile × FileTree)
    (calls : List StreamCall) (call : StreamCall) :
    run? target record state (calls ++ [call]) =
      (run? target record state calls).bind fun state => serve? target record state call := by
  simp only [run?, List.foldlM_append, List.foldlM_cons, List.foldlM_nil, bind_pure]
  rfl

/-- Calls that succeed lead to where their samples are written. -/
theorem stands_of_run (hrun : run? target record ({ stream }, tree) calls = some state) :
    Stands target record stream tree (StreamCall.samples calls) state := by
  induction calls using List.reverseRecOn generalizing state with
  | nil =>
    rw [← Option.some.inj hrun]
    exact .new
  | append_singleton calls call ih =>
    rw [run?_concat] at hrun
    obtain ⟨before, hbefore, hserve⟩ := Option.bind_eq_some_iff.mp hrun
    rw [StreamCall.samples_concat]
    exact (ih hbefore).serve hserve

/-- Calls succeed if the file and its description can be made. -/
theorem exists_run (hopen : openFile target stream record tree = (.ok file, opened))
    {place : Location} (hplace : opened.Admits (target.sidecarPath stream) place)
    (calls : List StreamCall) :
    ∃ state, run? target record ({ stream }, tree) calls = some state := by
  induction calls using List.reverseRecOn with
  | nil => exact ⟨_, rfl⟩
  | append_singleton calls call ih =>
    obtain ⟨before, hbefore⟩ := ih
    rw [run?_concat, hbefore, Option.bind_some]
    exact (stands_of_run hbefore).exists_serve hopen hplace call

/-- Calls without samples change nothing. -/
theorem run?_of_no_samples (target : OutputTarget) (record : StreamRecord) (stream : String)
    (tree : FileTree) (h : StreamCall.samples calls = []) :
    run? target record ({ stream }, tree) calls = some ({ stream }, tree) := by
  induction calls using List.reverseRecOn with
  | nil => rfl
  | append_singleton calls call ih =>
    rw [StreamCall.samples_concat, List.append_eq_nil_iff] at h
    rw [run?_concat, ih h.1, Option.bind_some]
    cases call with
    | consume sample => exact absurd h.2 (List.cons_ne_nil _ _)
    | finish => rfl

/-- Calls with samples and the end of the file that succeed have made the file before, and write
the description last. -/
theorem exists_going (hsamples : StreamCall.samples calls ≠ [])
    (hrun : run? target record ({ stream }, tree) (calls ++ [.finish]) = some state) :
    ∃ file opened sink current later, openFile target stream record tree = (.ok file, opened) ∧
      Going target record stream opened (StreamCall.samples calls) sink current later ∧
      serve? target record (sink, later) .finish = some state := by
  rw [run?_concat] at hrun
  obtain ⟨⟨sink, later⟩, hbefore, hserve⟩ := Option.bind_eq_some_iff.mp hrun
  generalize hwritten : StreamCall.samples calls = samples at hsamples ⊢
  have hstands := stands_of_run hbefore
  rw [hwritten] at hstands
  cases hstands with
  | new => exact absurd rfl hsamples
  | going hopen hgoing => exact ⟨_, _, sink, _, later, hopen, hgoing, hserve⟩

/-- Calls with samples and the end of the file succeed if and only if the file and its description
can be made. -/
theorem exists_run_iff (hsamples : StreamCall.samples calls ≠ []) :
    (∃ state, run? target record ({ stream }, tree) (calls ++ [.finish]) = some state) ↔
      ∃ file place, (openFile target stream record tree).1 = .ok file ∧
        ((openFile target stream record tree).2.createFile (target.sidecarPath stream)).1 =
          .ok place := by
  constructor
  · rintro ⟨state, hrun⟩
    obtain ⟨file, opened, sink, current, later, hopen, hgoing, hserve⟩ := exists_going hsamples hrun
    obtain ⟨place, hplace⟩ := hgoing.exists_admits_of_serve hserve
    refine ⟨file, place, ?_, ?_⟩
    · rw [hopen]
    · rw [hopen, hplace.createFile_eq]
  · rintro ⟨file, place, hfile, hplace⟩
    rcases hopen : openFile target stream record tree with ⟨result, opened⟩
    rw [hopen] at hfile hplace
    obtain rfl : result = .ok file := hfile
    exact exists_run hopen (FileTree.admits_of_createFile hplace) _

/-- After calls with samples and the end of the file, the file and its description are read. -/
theorem read_of_run {later : FileTree} (hsamples : StreamCall.samples calls ≠ [])
    (hrun : run? target record ({ stream }, tree) (calls ++ [.finish]) = some (sink, later)) :
    sink.samples = (StreamCall.samples calls).length ∧
      later.read (target.samplePath stream) = .ok (target.container.file
        (wave64Format target record)
        (payload target.sampleType record.isComplex (StreamCall.samples calls))) ∧
      later.read (target.sidecarPath stream) =
        .ok (sidecarText target sink record).toUTF8.toList := by
  obtain ⟨file, opened, before, current, tree, hopen, hgoing, hserve⟩ := exists_going hsamples hrun
  obtain ⟨place, hplace⟩ := hgoing.exists_admits_of_serve hserve
  obtain ⟨finished, after, hfinish, hlater, hread, htext⟩ := hgoing.finish hplace
  rw [serve?, hfinish] at hserve
  obtain ⟨hsink, hafter⟩ := Prod.mk.inj (Option.some.inj hserve)
  rw [← hsink, ← hafter]
  exact ⟨hgoing.samples_eq, hread, htext⟩

end Run

/-- Samples per second fit into their field. -/
theorem sampleRate_lt (target : OutputTarget) (record : StreamRecord) :
    (wave64Format target record).sampleRate < 2 ^ 32 := by
  have hrange := le_roundBetween (le_refl 0) (by decide : (0 : ℤ) ≤ 0xffffffff)
    record.sampleFrequency
  change (roundBetween 0 0xffffffff record.sampleFrequency).toNat < 2 ^ 32
  omega

/-- The attributes of a Wave64 file fit into their fields if the bytes per second do. -/
theorem fits_wave64Format (h : (wave64Format target record).byteRate < 2 ^ 32) :
    (wave64Format target record).Fits := by
  have hchannels : channelCount record.isComplex ≤ 2 := by cases record.isComplex <;> decide
  have hbits : target.sampleType.bits ≤ 32 := by cases target.sampleType <;> decide
  have halign : channelCount record.isComplex * (target.sampleType.bits / 8) ≤ 2 * (32 / 8) :=
    Nat.mul_le_mul hchannels (Nat.div_le_div_right hbits)
  refine ⟨sampleRate_lt target record, ?_, ?_, ?_, h⟩
  · exact hchannels.trans_lt (by decide)
  · exact hbits.trans_lt (by decide)
  · exact halign.trans_lt (by decide)

/-- A Wave64 file tells of samples that are written as some bytes. -/
structure TellsOf (target : OutputTarget) (record : StreamRecord) (data : List UInt8)
    (wave : WaveFile) : Prop where
  /-- A sample has as many channels as components. -/
  channels : wave.channels = channelCount record.isComplex
  /-- A value has the bits of the sample type. -/
  bitsPerSample : wave.bitsPerSample = target.sampleType.bits
  /-- A sample has the bytes of all its components. -/
  blockAlign : wave.blockAlign = channelCount record.isComplex * (target.sampleType.bits / 8)
  /-- The values are the bytes. -/
  data_eq : wave.data = data

/-- What the file of a stream and its description hold, where samples were given, which are written
as some bytes, and the file was finished. -/
structure HoldsSamples (target : OutputTarget) (record : StreamRecord) (stream : String)
    (samples : List Sample) (data : List UInt8) (sink : StreamFile) (later : FileTree) : Prop where
  /-- All samples are counted. -/
  count : sink.samples = samples.length
  /-- The bytes are those of all components of as many samples. -/
  length : data.length =
    sink.samples * (channelCount record.isComplex * (target.sampleType.bits / 8))
  /-- Nothing else is in a raw file. -/
  raw : target.container = .raw → later.read (target.samplePath stream) = .ok data
  /-- In a Wave64 file the bytes stand behind a header with their sizes. -/
  wave64 : target.container = .wave64 → later.read (target.samplePath stream) =
    .ok ((wave64Format target record).header (104 + data.length) (24 + data.length) ++ data)
  /-- The header has 104 bytes. -/
  header : ∀ fileSize dataSize, ((wave64Format target record).header fileSize dataSize).length = 104
  /-- The description has a line that counts the samples. -/
  description : ∃ (text : String) (front back : List Char),
    later.read (target.sidecarPath stream) = .ok text.toUTF8.toList ∧
    text.toList = front ++ (sidecar target sink record).summary.toList ++ back ∧
    front.getLast?.any Yaml.isBreak = true
  /-- The fields of a Wave64 file, if its bytes per second and its size fit into theirs, tell of the
  same samples. -/
  fields : target.container = .wave64 → (wave64Format target record).byteRate < 2 ^ 32 →
    104 + data.length < 2 ^ 64 →
    ∃ bytes wave, later.read (target.samplePath stream) = .ok bytes ∧
      WaveFile.read? bytes = some wave ∧ TellsOf target record data wave

/-- What calls to the sink of a stream come to in a tree of files. -/
structure LeavesFiles (target : OutputTarget) (record : StreamRecord) (stream : String)
    (tree : FileTree) (calls : List StreamCall) : Prop where
  /-- Calls without samples change nothing. -/
  unchanged : StreamCall.samples calls = [] →
    run? target record ({ stream }, tree) calls = some ({ stream }, tree)
  /-- After calls with samples the file is finished if and only if it and its description can be
  made. -/
  finishes_iff : StreamCall.samples calls ≠ [] →
    ((∃ state, run? target record ({ stream }, tree) (calls ++ [.finish]) = some state) ↔
      ∃ file place, (openFile target stream record tree).1 = .ok file ∧
        ((openFile target stream record tree).2.createFile (target.sidecarPath stream)).1 =
          .ok place)
  /-- Then it has the bytes of all samples in order. -/
  holds : StreamCall.samples calls ≠ [] → ∀ sink later data,
    run? target record ({ stream }, tree) (calls ++ [.finish]) = some (sink, later) →
    payload target.sampleType record.isComplex (StreamCall.samples calls) = data →
      HoldsSamples target record stream (StreamCall.samples calls) data sink later

/-- Whatever the calls, the file of a stream and its description agree with each other and with the
samples. -/
theorem files_after_calls (target : OutputTarget) (record : StreamRecord) (stream : String)
    (tree : FileTree) (calls : List StreamCall) :
    LeavesFiles target record stream tree calls := by
  refine
    { unchanged := run?_of_no_samples target record stream tree
      finishes_iff := exists_run_iff
      holds := fun hsamples sink later data hrun hdata => ?_ }
  obtain ⟨hcount, hread, htext⟩ := read_of_run hsamples hrun
  rw [hdata] at hread
  have hlength : data.length =
      sink.samples * (channelCount record.isComplex * (target.sampleType.bits / 8)) := by
    rw [← hdata, length_payload, hcount]
  obtain ⟨front, back, hrender, hfront⟩ := (sidecar target sink record).exists_render_eq
  refine
    { count := hcount
      length := hlength
      raw := fun hraw => by rw [hread, hraw, Container.file]
      wave64 := fun hwave => by rw [hread, hwave, Container.file]
      header := (wave64Format target record).length_header
      description := ⟨_, front, back, htext, hrender, hfront⟩
      fields := fun hwave hrate hsize => ?_ }
  have hfile := WaveFile.read?_header (fits_wave64Format hrate) hsize
  rw [hwave, Container.file] at hread
  exact ⟨_, _, hread, hfile, rfl, rfl, rfl, rfl⟩

/-- A target for Wave64 files of integers of 8 bits. -/
def waveTarget : OutputTarget := { base := ⟨"rec"⟩, container := .wave64, sampleType := .int8 }

/-- Two real samples, between which the file is finished. -/
def pairCalls : List StreamCall := [.consume (.real 1), .finish, .consume (.real (-1))]

/-- In a tree that has nothing in it, a Wave64 file of both samples can be made, and is read. -/
theorem files_after_calls_of_pairCalls :
    StreamCall.samples pairCalls ≠ [] ∧
    ∃ sink later bytes wave,
      run? waveTarget default ({ stream := "L1" }, {}) (pairCalls ++ [.finish]) =
        some (sink, later) ∧
      sink.samples = 2 ∧ later.read (waveTarget.samplePath "L1") = .ok bytes ∧
      WaveFile.read? bytes = some wave ∧ wave.channels = 1 ∧ wave.blockAlign = 1 ∧
      wave.bitsPerSample = 8 ∧ wave.data.length = 2 ∧
      wave.data = payload .int8 false [.real 1, .real (-1)] := by
  have hsamples : StreamCall.samples pairCalls ≠ [] := List.cons_ne_nil _ _
  have hleaves := files_after_calls waveTarget default "L1" {} pairCalls
  have hfile : ∃ file, (openFile waveTarget "L1" default {}).1 = .ok file :=
    ⟨_, by with_unfolding_all rfl⟩
  have hplace : ((openFile waveTarget "L1" default {}).2.createFile
      (waveTarget.sidecarPath "L1")).1 = .ok ["rec.L1.yaml"] := by with_unfolding_all rfl
  obtain ⟨file, hfile⟩ := hfile
  obtain ⟨⟨sink, later⟩, hrun⟩ := (hleaves.finishes_iff hsamples).mpr ⟨file, _, hfile, hplace⟩
  have hholds := hleaves.holds hsamples sink later _ hrun rfl
  have hdata : (payload waveTarget.sampleType (default : StreamRecord).isComplex
      (StreamCall.samples pairCalls)).length = 2 :=
    hholds.length.trans (by rw [hholds.count]; rfl)
  have hbytes : (wave64Format waveTarget default).blockAlign = 1 := rfl
  have hrate : (wave64Format waveTarget default).byteRate < 2 ^ 32 := by
    rw [Wave64Format.byteRate, hbytes, Nat.mul_one]
    exact sampleRate_lt waveTarget default
  obtain ⟨bytes, wave, hread, hfound, htells⟩ :=
    hholds.fields rfl hrate (by rw [hdata]; decide)
  refine ⟨hsamples, sink, later, bytes, wave, hrun, hholds.count, hread, hfound, htells.channels,
    htells.blockAlign, htells.bitsPerSample, ?_, htells.data_eq⟩
  rw [htells.data_eq, hdata]

end StreamFile

end SampleDemux
