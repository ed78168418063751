import SampleDemux.Output.Wave64
import SampleDemux.Proofs.BitString
import SampleDemux.Proofs.BufferedOutput

/-!
# Wave64 files that are written and read

Whatever is written and however often the file is finished in between, a Wave64 file is its header
and then all values in order. The two sizes in the header are those of the last time the file was
finished, and zero before. A reader that knows the identifiers and follows the sizes finds the
attributes of a finished file and exactly its values.
-/

namespace SampleDemux

/-- So many bytes are written. -/
@[simp]
theorem length_littleEndian (count value : ℕ) : (littleEndian count value).length = count := by
  induction count generalizing value with
  | zero => rfl
  | succ count ih => rw [littleEndian, List.length_cons, ih]

/-- The bytes of a number have its value, unless it does not fit. -/
theorem byteNumber_littleEndian (count value : ℕ) :
    byteNumber (littleEndian count value) = value % 256 ^ count := by
  induction count generalizing value with
  | zero => rw [pow_zero, Nat.mod_one]; rfl
  | succ count ih =>
    have hlow : (UInt8.ofNat value).toNat = value % 256 := rfl
    have hsplit : value % (256 * 256 ^ count) = value % 256 + 256 * (value / 256 % 256 ^ count) :=
      Nat.mod_mul
    rw [littleEndian, byteNumber_cons, ih, hlow, pow_succ', hsplit]

/-- The bytes of a number that fits have its value. -/
theorem byteNumber_littleEndian_of_lt {count value : ℕ} (h : value < 256 ^ count) :
    byteNumber (littleEndian count value) = value := by
  rw [byteNumber_littleEndian, Nat.mod_eq_of_lt h]

namespace Wave64

/-- The number in a field of some bytes. -/
def field (bytes : List UInt8) (offset count : ℕ) : ℕ :=
  byteNumber ((bytes.drop offset).take count)

/-- A field that was written has its number. -/
theorem field_append (before : List UInt8) {offset count value : ℕ}
    (hoffset : before.length = offset) (hvalue : value < 256 ^ count) (behind : List UInt8) :
    field (before ++ (littleEndian count value ++ behind)) offset count = value := by
  have htake : (littleEndian count value ++ behind).take count = littleEndian count value :=
    List.take_left' (length_littleEndian count value)
  rw [field, List.drop_left' hoffset, htake, byteNumber_littleEndian_of_lt hvalue]

/-- A field behind a number that was written is counted from there. -/
theorem field_add (count value : ℕ) (behind : List UInt8) (offset size : ℕ) :
    field (littleEndian count value ++ behind) (offset + count) size =
      field behind offset size := by
  have hdrop : (littleEndian count value ++ behind).drop (offset + count) = behind.drop offset := by
    rw [Nat.add_comm, ← List.drop_drop, List.drop_left' (length_littleEndian count value)]
  rw [field, hdrop, field]

/-- A chunk of a file. -/
structure Chunk where
  /-- What the chunk holds. -/
  guid : List UInt8
  /-- What follows its identifier and its size. -/
  content : List UInt8
  deriving DecidableEq, Repr

/-- Reads the chunk that bytes begin with. The bytes behind it are left. -/
def Chunk.read? (bytes : List UInt8) : Option (Chunk × List UInt8) :=
  let size := field bytes 16 8
  if size < chunkHeaderSize ∨ bytes.length < size then none
  else some (⟨bytes.take 16, (bytes.take size).drop chunkHeaderSize⟩, bytes.drop size)

/-- The bytes of a chunk. -/
def Chunk.bytes (chunk : Chunk) : List UInt8 :=
  chunk.guid ++ (littleEndian 8 (chunkHeaderSize + chunk.content.length) ++ chunk.content)

/-- A chunk that was read took bytes. -/
theorem Chunk.length_lt_of_read? {bytes rest : List UInt8} {chunk : Chunk}
    (h : Chunk.read? bytes = some (chunk, rest)) : rest.length < bytes.length := by
  unfold Chunk.read? at h
  dsimp only at h
  split at h
  · cases h
  · rename_i hsize
    have hrest : bytes.drop (field bytes 16 8) = rest := (Prod.mk.inj (Option.some.inj h)).2
    have hlength : rest.length = bytes.length - field bytes 16 8 := by
      rw [← hrest, List.length_drop]
    have hheader : chunkHeaderSize = 24 := rfl
    omega

/-- The content of the first chunk with an identifier. -/
def findChunk (guid bytes : List UInt8) : Option (List UInt8) :=
  match _ : Chunk.read? bytes with
  | none => none
  | some (chunk, rest) => if chunk.guid = guid then some chunk.content else findChunk guid rest
termination_by bytes.length
decreasing_by exact Chunk.length_lt_of_read? (by assumption)

/-- A chunk that was written is read. -/
theorem Chunk.read?_append (chunk : Chunk) (hguid : chunk.guid.length = 16)
    (hsize : chunkHeaderSize + chunk.content.length < 2 ^ 64) (behind : List UInt8) :
    Chunk.read? (chunk.bytes ++ behind) = some (chunk, behind) := by
  have hsplit : chunk.bytes ++ behind = chunk.guid ++
      (littleEndian 8 (chunkHeaderSize + chunk.content.length) ++ (chunk.content ++ behind)) := by
    rw [Chunk.bytes, List.append_assoc, List.append_assoc]
  have hlength : chunk.bytes.length = chunkHeaderSize + chunk.content.length := by
    rw [Chunk.bytes, List.length_append, List.length_append, length_littleEndian, hguid,
      ← Nat.add_assoc]
    rfl
  have hfield : field (chunk.bytes ++ behind) 16 8 = chunk.bytes.length := by
    rw [hlength, hsplit]
    exact field_append _ hguid hsize _
  have hbound : ¬ (chunk.bytes.length < chunkHeaderSize ∨
      (chunk.bytes ++ behind).length < chunk.bytes.length) := by
    rw [List.length_append]
    omega
  have hcontent : chunk.bytes.drop chunkHeaderSize = chunk.content := by
    rw [Chunk.bytes, ← List.append_assoc]
    refine List.drop_left' ?_
    rw [List.length_append, length_littleEndian, hguid]
    rfl
  have hidentifier : (chunk.bytes ++ behind).take 16 = chunk.guid := by
    rw [hsplit]
    exact List.take_left' hguid
  rw [Chunk.read?, hfield, if_neg hbound, List.take_left, List.drop_left, hcontent, hidentifier]

/-- A chunk that comes first is found. -/
theorem findChunk_self (chunk : Chunk) (hguid : chunk.guid.length = 16)
    (hsize : chunkHeaderSize + chunk.content.length < 2 ^ 64) (behind : List UInt8) :
    findChunk chunk.guid (chunk.bytes ++ behind) = some chunk.content := by
  rw [findChunk, chunk.read?_append hguid hsize behind]
  exact if_pos rfl

/-- A chunk with another identifier is passed. -/
theorem findChunk_of_ne (chunk : Chunk) (hguid : chunk.guid.length = 16)
    (hsize : chunkHeaderSize + chunk.content.length < 2 ^ 64) {guid : List UInt8}
    (hother : chunk.guid ≠ guid) (behind : List UInt8) :
    findChunk guid (chunk.bytes ++ behind) = findChunk guid behind := by
  rw [findChunk, chunk.read?_append hguid hsize behind]
  exact if_neg hother

end Wave64

namespace Wave64Format

/-- The attributes of a file fit into their fields. -/
structure Fits (format : Wave64Format) : Prop where
  /-- Samples per second take 32 bits. -/
  sampleRate_lt : format.sampleRate < 2 ^ 32
  /-- Values of one sample take 16 bits. -/
  channels_lt : format.channels < 2 ^ 16
  /-- Bits of a value take 16 bits. -/
  bitsPerSample_lt : format.bitsPerSample < 2 ^ 16
  /-- Bytes of one sample take 16 bits. -/
  blockAlign_lt : format.blockAlign < 2 ^ 16
  /-- Bytes per second take 32 bits. -/
  byteRate_lt : format.byteRate < 2 ^ 32

instance (format : Wave64Format) : Decidable format.Fits :=
  decidable_of_iff
    (format.sampleRate < 2 ^ 32 ∧ format.channels < 2 ^ 16 ∧ format.bitsPerSample < 2 ^ 16 ∧
      format.blockAlign < 2 ^ 16 ∧ format.byteRate < 2 ^ 32)
    ⟨fun ⟨h1, h2, h3, h4, h5⟩ => ⟨h1, h2, h3, h4, h5⟩,
      fun ⟨h1, h2, h3, h4, h5⟩ => ⟨h1, h2, h3, h4, h5⟩⟩

/-- What the format chunk holds. -/
def content (format : Wave64Format) : List UInt8 :=
  littleEndian 2 format.tag ++ (littleEndian 2 format.channels ++
    (littleEndian 4 format.sampleRate ++ (littleEndian 4 format.byteRate ++
      (littleEndian 2 format.blockAlign ++ littleEndian 2 format.bitsPerSample))))

/-- Attributes take 16 bytes. -/
theorem length_content (format : Wave64Format) : format.content.length = 16 := by
  simp only [content, List.length_append, length_littleEndian]

/-- The format chunk is a chunk with the attributes. -/
theorem chunk_eq (format : Wave64Format) :
    format.chunk = (⟨Wave64.formatGuid, format.content⟩ : Wave64.Chunk).bytes := by
  rw [Wave64.Chunk.bytes, length_content]
  simp only [chunk, content, List.append_assoc]

/-- The bytes before the size of the data chunk, with the size of the file. -/
def opening (format : Wave64Format) (fileSize : ℕ) : List UInt8 :=
  Wave64.riffGuid ++ (littleEndian 8 fileSize ++ (Wave64.waveGuid ++ (format.chunk ++
    Wave64.dataGuid)))

/-- The bytes before the data of a file, with the sizes of the file and of the data chunk. -/
def header (format : Wave64Format) (fileSize dataSize : ℕ) : List UInt8 :=
  format.opening fileSize ++ littleEndian 8 dataSize

/-- The size of the data chunk is at its place. -/
theorem length_opening (format : Wave64Format) (fileSize : ℕ) :
    (format.opening fileSize).length = Wave64.dataSizeOffset := by
  simp only [opening, chunk_eq, Wave64.Chunk.bytes, List.length_append, length_littleEndian,
    length_content]
  rfl

/-- A header has 104 bytes. -/
@[simp]
theorem length_header (format : Wave64Format) (fileSize dataSize : ℕ) :
    (format.header fileSize dataSize).length = 104 := by
  rw [header, List.length_append, length_opening, length_littleEndian]
  rfl

/-- A header begins with the identifier and the size of the file. -/
theorem header_append (format : Wave64Format) (fileSize dataSize : ℕ) (data : List UInt8) :
    format.header fileSize dataSize ++ data =
      Wave64.riffGuid ++ (littleEndian 8 fileSize ++ (Wave64.waveGuid ++ (format.chunk ++
        (Wave64.dataGuid ++ (littleEndian 8 dataSize ++ data))))) := by
  simp only [header, opening, List.append_assoc]

section Sizes

variable (format : Wave64Format) (fileSize dataSize size : ℕ) (data : List UInt8)

/-- The size of the file is put at its place. -/
theorem overlay_fileSize :
    overlay (format.header fileSize dataSize ++ data) Wave64.fileSizeOffset (littleEndian 8 size) =
      format.header size dataSize ++ data := by
  have hlength : (littleEndian 8 fileSize).length = (littleEndian 8 size).length := by
    rw [length_littleEndian, length_littleEndian]
  have hput := overlay_append Wave64.riffGuid hlength
    (Wave64.waveGuid ++ (format.chunk ++ (Wave64.dataGuid ++ (littleEndian 8 dataSize ++ data))))
  rw [List.append_assoc, List.append_assoc, ← header_append, ← header_append] at hput
  exact hput

/-- The size of the data chunk is put at its place. -/
theorem overlay_dataSize :
    overlay (format.header fileSize dataSize ++ data) Wave64.dataSizeOffset (littleEndian 8 size) =
      format.header fileSize size ++ data := by
  have hlength : (littleEndian 8 dataSize).length = (littleEndian 8 size).length := by
    rw [length_littleEndian, length_littleEndian]
  have hput := overlay_append (format.opening fileSize) hlength data
  rw [length_opening] at hput
  exact hput

/-- The size of the file is read from its place. -/
theorem field_fileSize (h : fileSize < 2 ^ 64) :
    Wave64.field (format.header fileSize dataSize ++ data) 16 8 = fileSize := by
  rw [header_append]
  exact Wave64.field_append Wave64.riffGuid rfl h _

/-- The size of the data chunk is read from its place. -/
theorem field_dataSize (h : dataSize < 2 ^ 64) :
    Wave64.field (format.header fileSize dataSize ++ data) 96 8 = dataSize := by
  rw [header, List.append_assoc]
  exact Wave64.field_append _ (format.length_opening fileSize) h data

end Sizes

end Wave64Format

/-- What a Wave64 file says of its values, and the values. -/
structure WaveFile where
  /-- The kind of values. -/
  tag : ℕ
  /-- Values of one sample. -/
  channels : ℕ
  /-- Samples per second. -/
  sampleRate : ℕ
  /-- Bytes per second. -/
  byteRate : ℕ
  /-- Bytes of one sample. -/
  blockAlign : ℕ
  /-- Bits of a value. -/
  bitsPerSample : ℕ
  /-- The bytes of the values. -/
  data : List UInt8
  deriving DecidableEq, Repr

namespace WaveFile

open Wave64

/-- A file with some attributes and values. -/
def ofData (format : Wave64Format) (data : List UInt8) : WaveFile where
  tag := format.tag
  channels := format.channels
  sampleRate := format.sampleRate
  byteRate := format.byteRate
  blockAlign := format.blockAlign
  bitsPerSample := format.bitsPerSample
  data

/-- Reads what follows the identifiers of a file: the attributes from its format chunk and the
values from its data chunk. -/
def ofChunks? (bytes : List UInt8) : Option WaveFile :=
  match findChunk formatGuid bytes, findChunk dataGuid bytes with
  | some format, some data =>
    some {
      tag := field format 0 2
      channels := field format 2 2
      sampleRate := field format 4 4
      byteRate := field format 8 4
      blockAlign := field format 12 2
      bitsPerSample := field format 14 2
      data }
  | _, _ => none

/-- Reads a file, which is one chunk with chunks in it. -/
def read? (bytes : List UInt8) : Option WaveFile :=
  match Chunk.read? bytes with
  | none => none
  | some (file, _) =>
    if file.guid = riffGuid ∧ file.content.take 16 = waveGuid then
      ofChunks? (file.content.drop 16)
    else none

/-- The fields of the format chunk are the attributes. -/
theorem fields_content {format : Wave64Format} (h : format.Fits) :
    field format.content 0 2 = format.tag ∧ field format.content 2 2 = format.channels ∧
      field format.content 4 4 = format.sampleRate ∧ field format.content 8 4 = format.byteRate ∧
      field format.content 12 2 = format.blockAlign ∧
      field format.content 14 2 = format.bitsPerSample := by
  have htag : format.tag < 256 ^ 2 := by
    rw [Wave64Format.tag]
    split <;> decide
  have hbits : field (littleEndian 2 format.bitsPerSample) 0 2 = format.bitsPerSample := by
    have hlast : field ([] ++ (littleEndian 2 format.bitsPerSample ++ [])) 0 2 =
        format.bitsPerSample := field_append [] rfl h.bitsPerSample_lt []
    rwa [List.nil_append, List.append_nil] at hlast
  refine ⟨field_append [] rfl htag _, ?_, ?_, ?_, ?_, ?_⟩
  · rw [Wave64Format.content, field_add 2 _ _ 0]
    exact field_append [] rfl h.channels_lt _
  · rw [Wave64Format.content, field_add 2 _ _ 2, field_add 2 _ _ 0]
    exact field_append [] rfl h.sampleRate_lt _
  · rw [Wave64Format.content, field_add 2 _ _ 6, field_add 2 _ _ 4, field_add 4 _ _ 0]
    exact field_append [] rfl h.byteRate_lt _
  · rw [Wave64Format.content, field_add 2 _ _ 10, field_add 2 _ _ 8, field_add 4 _ _ 4,
      field_add 4 _ _ 0]
    exact field_append [] rfl h.blockAlign_lt _
  · rw [Wave64Format.content, field_add 2 _ _ 12, field_add 2 _ _ 10, field_add 4 _ _ 6,
      field_add 4 _ _ 2, field_add 2 _ _ 0]
    exact hbits

/-- The format chunk. -/
def formatChunk (format : Wave64Format) : Chunk := ⟨formatGuid, format.content⟩

/-- A chunk with data. -/
def dataChunk (data : List UInt8) : Chunk := ⟨dataGuid, data⟩

/-- A whole file as a chunk. -/
def fileChunk (format : Wave64Format) (data : List UInt8) : Chunk :=
  ⟨riffGuid, waveGuid ++ ((formatChunk format).bytes ++ (dataChunk data).bytes)⟩

/-- A file takes 104 bytes more than its data. -/
theorem length_fileChunk (format : Wave64Format) (data : List UInt8) :
    chunkHeaderSize + (fileChunk format data).content.length = 104 + data.length := by
  have hguid : waveGuid.length = 16 ∧ formatGuid.length = 16 ∧ dataGuid.length = 16 :=
    ⟨rfl, rfl, rfl⟩
  simp only [fileChunk, formatChunk, dataChunk, Chunk.bytes, List.length_append,
    length_littleEndian, Wave64Format.length_content, hguid, chunkHeaderSize]
  omega

/-- A header with the right sizes makes the data a file. -/
theorem bytes_fileChunk (format : Wave64Format) (data : List UInt8) :
    (fileChunk format data).bytes =
      format.header (104 + data.length) (24 + data.length) ++ data := by
  rw [Chunk.bytes, length_fileChunk, Wave64Format.header_append, Wave64Format.chunk_eq]
  simp only [fileChunk, formatChunk, dataChunk, Chunk.bytes, List.append_assoc, chunkHeaderSize]

/-- A file with the right sizes is read. -/
theorem read?_header {format : Wave64Format} (h : format.Fits) {data : List UInt8}
    (hsize : 104 + data.length < 2 ^ 64) :
    read? (format.header (104 + data.length) (24 + data.length) ++ data) =
      some (ofData format data) := by
  have hfile : Chunk.read? (fileChunk format data).bytes = some (fileChunk format data, []) := by
    have hread := (fileChunk format data).read?_append rfl
      ((length_fileChunk format data).trans_lt hsize) []
    rwa [List.append_nil] at hread
  have hformatSize : chunkHeaderSize + (formatChunk format).content.length < 2 ^ 64 := by
    rw [formatChunk, Wave64Format.length_content]
    decide
  have hdataSize : chunkHeaderSize + (dataChunk data).content.length < 2 ^ 64 := by
    change 24 + data.length < 2 ^ 64
    omega
  have hformat : findChunk formatGuid ((formatChunk format).bytes ++ (dataChunk data).bytes) =
      some format.content :=
    findChunk_self (formatChunk format) rfl hformatSize _
  have hdata : findChunk dataGuid ((formatChunk format).bytes ++ (dataChunk data).bytes) =
      some data := by
    rw [findChunk_of_ne (formatChunk format) rfl hformatSize (by decide : formatGuid ≠ dataGuid)]
    have hfound := findChunk_self (dataChunk data) rfl hdataSize []
    rwa [List.append_nil] at hfound
  have hcontent : (fileChunk format data).content.drop 16 =
      (formatChunk format).bytes ++ (dataChunk data).bytes := List.drop_left' rfl
  have hguids : (fileChunk format data).guid = riffGuid ∧
      (fileChunk format data).content.take 16 = waveGuid := ⟨rfl, List.take_left' rfl⟩
  obtain ⟨htag, hchannels, hrate, hbytes, halign, hbits⟩ := fields_content h
  rw [← bytes_fileChunk, read?, hfile]
  dsimp only
  rw [if_pos hguids, hcontent, ofChunks?, hformat, hdata]
  dsimp only
  rw [htag, hchannels, hrate, hbytes, halign, hbits, ofData]

end WaveFile

/-- What is asked of a file that is being written. -/
inductive Wave64Call where
  /-- To append values. -/
  | write (values : List WrittenNumber)
  /-- To put the sizes into the header. -/
  | finish
  deriving DecidableEq

/-- The bytes that a call appends. -/
def Wave64Call.bytes : Wave64Call → List UInt8
  | write values => values.flatMap (·.bytes)
  | finish => []

namespace Wave64Writer

/-- Serves a call. -/
def serve (state : Wave64Writer × List UInt8) : Wave64Call → Wave64Writer × List UInt8
  | .write values => state.1.write (values.flatMap (·.bytes)) state.2
  | .finish => state.1.finish state.2

/-- A new file after some calls, and what has gone out of it. -/
def after (format : Wave64Format) (calls : List Wave64Call) : Wave64Writer × List UInt8 :=
  calls.foldl serve (start format [])

/-- The file with what is held back. -/
def flushed (state : Wave64Writer × List UInt8) : List UInt8 := (state.1.flush state.2).2

/-- A file has been written up to its end: a header with two sizes, and data. -/
structure Holds (state : Wave64Writer × List UInt8) (format : Wave64Format)
    (fileSize dataSize : ℕ) (data : List UInt8) : Prop where
  /-- The attributes are those of the file. -/
  format_eq : state.1.format = format
  /-- Bytes of values are counted. -/
  dataWritten_eq : state.1.dataWritten = data.length
  /-- The header and the data were written. -/
  appended : state.1.output.Appended state.2 (format.header fileSize dataSize ++ data)

variable {format : Wave64Format} {state : Wave64Writer × List UInt8} {fileSize dataSize : ℕ}
  {data : List UInt8}

/-- A new file is a header with empty sizes. -/
theorem holds_start (format : Wave64Format) : Holds (start format []) format 0 0 [] := by
  obtain ⟨output, content, hriff, happended⟩ :=
    BufferedWriter.appended_new.exists_write Wave64.riffGuid
  rw [start, hriff]
  dsimp only
  rw [happended.flush_eq]
  obtain ⟨output, content, hwave, happended⟩ :=
    (BufferedWriter.Appended.of_length _).exists_write (littleEndian 8 0 ++ Wave64.waveGuid)
  rw [hwave]
  dsimp only
  obtain ⟨output, content, hformat, happended⟩ := happended.exists_write format.chunk
  rw [hformat]
  dsimp only
  obtain ⟨output, content, hdata, happended⟩ := happended.exists_write Wave64.dataGuid
  rw [hdata]
  dsimp only
  rw [happended.flush_eq]
  have hheader : format.header 0 0 ++ [] = [] ++ Wave64.riffGuid ++
      (littleEndian 8 0 ++ Wave64.waveGuid) ++ format.chunk ++ Wave64.dataGuid ++
        littleEndian 8 0 := by
    rw [Wave64Format.header_append]
    simp only [List.append_nil, List.nil_append, List.append_assoc]
  refine ⟨rfl, rfl, ?_⟩
  rw [hheader]
  exact (BufferedWriter.Appended.of_length _).write _

/-- Written values come behind the data, and the sizes stay. -/
theorem Holds.write (h : Holds state format fileSize dataSize data) (bytes : List UInt8) :
    Holds (state.1.write bytes state.2) format fileSize dataSize (data ++ bytes) where
  format_eq := h.format_eq
  dataWritten_eq := by
    rw [List.length_append, ← h.dataWritten_eq]
    rfl
  appended := by
    rw [← List.append_assoc]
    exact h.appended.write bytes

/-- Finishing puts the sizes into the header, leaves the data as it is and goes back to its end. -/
theorem Holds.finish_eq (h : Holds state format fileSize dataSize data) :
    state.1.finish state.2 =
      (⟨format, ⟨104 + data.length, #[]⟩, data.length⟩,
        format.header (104 + data.length) (24 + data.length) ++ data) := by
  have hend : (format.header fileSize dataSize ++ data).length = 104 + data.length := by
    rw [List.length_append, Wave64Format.length_header]
  have hsize : state.1.dataWritten + Wave64.chunkHeaderSize = 24 + data.length := by
    rw [h.dataWritten_eq, Nat.add_comm]
    rfl
  have hflushed :=
    BufferedWriter.Appended.of_length (format.header fileSize dataSize ++ data)
  rw [Wave64Writer.finish, h.appended.flush_eq]
  dsimp only
  rw [hflushed.position_eq, hflushed.seek_eq, hend, hsize, BufferedWriter.seek_write,
    Wave64Format.overlay_dataSize]
  dsimp only
  rw [BufferedWriter.seek_write, Wave64Format.overlay_fileSize]
  dsimp only
  rw [h.format_eq, h.dataWritten_eq]

/-- A finished file has the sizes of its data. -/
theorem Holds.finish (h : Holds state format fileSize dataSize data) :
    Holds (state.1.finish state.2) format (104 + data.length) (24 + data.length) data := by
  rw [h.finish_eq]
  refine ⟨rfl, rfl, ?_, List.append_nil _⟩
  rw [List.length_append, Wave64Format.length_header]

/-- Flushing leaves the header and the data. -/
theorem Holds.flushed_eq (h : Holds state format fileSize dataSize data) :
    flushed state = format.header fileSize dataSize ++ data := by
  rw [flushed, Wave64Writer.flush, h.appended.flush_eq]

/-- Serving a call appends its bytes; the sizes stay unless the file is finished. -/
theorem Holds.serve (h : Holds state format fileSize dataSize data) {call : Wave64Call}
    (hcall : call ≠ .finish) :
    Holds (serve state call) format fileSize dataSize (data ++ call.bytes) := by
  cases call with
  | write values => exact h.write _
  | finish => exact absurd rfl hcall

/-- Calls that do not finish the file append their bytes, and the sizes stay. -/
theorem Holds.serveAll {calls : List Wave64Call} (h : Holds state format fileSize dataSize data)
    (hcalls : ∀ call ∈ calls, call ≠ .finish) :
    Holds (calls.foldl Wave64Writer.serve state) format fileSize dataSize
      (data ++ calls.flatMap (·.bytes)) := by
  induction calls generalizing state data with
  | nil => rwa [List.flatMap_nil, List.append_nil]
  | cons call calls ih =>
    rw [List.flatMap_cons, ← List.append_assoc]
    exact ih (h.serve (hcalls _ List.mem_cons_self))
      fun other hother => hcalls other (List.mem_cons_of_mem _ hother)

/-- After any calls a file is a header and the bytes of all calls. -/
theorem exists_holds_after (format : Wave64Format) (calls : List Wave64Call) :
    ∃ fileSize dataSize,
      Holds (after format calls) format fileSize dataSize (calls.flatMap (·.bytes)) := by
  induction calls using List.reverseRecOn with
  | nil =>
    rw [after, List.foldl_nil, List.flatMap_nil]
    exact ⟨0, 0, holds_start format⟩
  | append_singleton calls call ih =>
    obtain ⟨fileSize, dataSize, hholds⟩ := ih
    rw [after, List.foldl_concat, List.flatMap_append, List.flatMap_singleton]
    cases call with
    | write values => exact ⟨_, _, hholds.write _⟩
    | finish =>
      rw [Wave64Call.bytes, List.append_nil]
      exact ⟨_, _, hholds.finish⟩

/-- A file that was finished last holds the sizes of its data. -/
theorem holds_after_finish (format : Wave64Format) (calls : List Wave64Call) :
    Holds (after format (calls ++ [.finish])) format
      (104 + (calls.flatMap (·.bytes)).length) (24 + (calls.flatMap (·.bytes)).length)
      (calls.flatMap (·.bytes)) := by
  obtain ⟨fileSize, dataSize, hholds⟩ := exists_holds_after format calls
  rw [after, List.foldl_concat]
  exact hholds.finish

/-- Finishing a finished file changes nothing. -/
theorem after_finish_finish (format : Wave64Format) (calls : List Wave64Call) :
    after format (calls ++ [.finish, .finish]) = after format (calls ++ [.finish]) := by
  obtain ⟨fileSize, dataSize, hholds⟩ := exists_holds_after format calls
  have hagain := hholds.finish.finish_eq
  rw [hholds.finish_eq] at hagain
  simp only [after, List.foldl_append, List.foldl_cons, List.foldl_nil, serve] at hholds ⊢
  rw [hholds.finish_eq, hagain]

/-- A file that was finished, whose bytes fit into its sizes, with some data. -/
structure IsReadable (format : Wave64Format) (data bytes : List UInt8) : Prop where
  /-- It has its length as a size. -/
  fileSize : Wave64.field bytes 16 8 = bytes.length
  /-- It has the length of its data chunk as a size. -/
  dataSize : Wave64.field bytes 96 8 = 24 + data.length
  /-- A reader that follows the identifiers and sizes finds the attributes and exactly the data. -/
  read_eq : WaveFile.read? bytes = some (.ofData format data)

/-- What calls to the writer of a file leave. -/
structure Leaves (format : Wave64Format) (calls : List Wave64Call) : Prop where
  /-- The bytes of all calls are counted. -/
  dataWritten_eq : (after format calls).1.dataWritten = (calls.flatMap (·.bytes)).length
  /-- The header has 104 bytes. -/
  header : ∀ fileSize dataSize, (format.header fileSize dataSize).length = 104
  /-- A file that was not finished is its header and the bytes of all calls in order, with sizes
  that are zero. -/
  unfinished : (∀ call ∈ calls, call ≠ .finish) →
    flushed (after format calls) = format.header 0 0 ++ calls.flatMap (·.bytes)
  /-- Otherwise the sizes are those of the last time it was finished. -/
  finished : ∀ earlier later, calls = earlier ++ .finish :: later →
    (∀ call ∈ later, call ≠ .finish) →
      flushed (after format calls) =
        format.header (104 + (earlier.flatMap (·.bytes)).length)
          (24 + (earlier.flatMap (·.bytes)).length) ++ calls.flatMap (·.bytes)
  /-- Finishing the file again changes nothing. -/
  again : after format (calls ++ [.finish, .finish]) = after format (calls ++ [.finish])
  /-- A finished file can be read. -/
  readable : 104 + (calls.flatMap (·.bytes)).length < 2 ^ 64 →
    IsReadable format (calls.flatMap (·.bytes)) (flushed (after format (calls ++ [.finish])))

/-- Whatever the calls, a file is its header and the bytes of all calls in order. -/
theorem flushed_after_calls {format : Wave64Format} (hformat : format.Fits)
    (calls : List Wave64Call) : Leaves format calls := by
  obtain ⟨fileSize, dataSize, hholds⟩ := exists_holds_after format calls
  refine
    { dataWritten_eq := hholds.dataWritten_eq
      header := format.length_header
      unfinished := fun hnone => ?_
      finished := fun earlier later hsplit hlater => ?_
      again := after_finish_finish format calls
      readable := fun hsize => ?_ }
  · have hwritten := ((holds_start format).serveAll hnone).flushed_eq
    rwa [List.nil_append] at hwritten
  · have hfinished := (holds_after_finish format earlier).serveAll hlater
    have hcalls : after format calls =
        later.foldl serve (after format (earlier ++ [.finish])) := by
      rw [hsplit, after, after, ← List.foldl_append, List.append_assoc, List.singleton_append]
    have hbytes : calls.flatMap (·.bytes) =
        earlier.flatMap (·.bytes) ++ later.flatMap (·.bytes) := by
      rw [hsplit, List.flatMap_append, List.flatMap_cons, Wave64Call.bytes, List.nil_append]
    rw [hcalls, hbytes]
    exact hfinished.flushed_eq
  · have hfinished := (holds_after_finish format calls).flushed_eq
    rw [hfinished]
    exact
      { fileSize := by
          rw [format.field_fileSize _ _ _ hsize, List.length_append, Wave64Format.length_header]
        dataSize := format.field_dataSize _ _ _ (by omega)
        read_eq := WaveFile.read?_header hformat hsize }

/-- The attributes of a file with two values of 16 bits to a sample. -/
def stereoFormat : Wave64Format :=
  { sampleRate := 4092000, channels := 2, bitsPerSample := 16, float := false }

/-- Two samples, between which the file is finished. -/
def stereoCalls : List Wave64Call :=
  [.write [.int16 1, .int16 (-2)], .finish, .write [.int16 3, .int16 (-4)]]

/-- The second sample comes behind the first one. The sizes are those of the first sample until the
file is finished again, and then a reader finds both. -/
theorem flushed_after_calls_of_stereoCalls :
    stereoFormat.Fits ∧
    flushed (after stereoFormat stereoCalls) =
      stereoFormat.header 108 28 ++ [1, 0, 0xfe, 0xff, 3, 0, 0xfc, 0xff] ∧
    WaveFile.read? (flushed (after stereoFormat (stereoCalls ++ [.finish]))) =
      some (.ofData stereoFormat [1, 0, 0xfe, 0xff, 3, 0, 0xfc, 0xff]) := by
  have hfits : stereoFormat.Fits := by decide
  have hleaves := flushed_after_calls hfits stereoCalls
  refine ⟨hfits, ?_, (hleaves.readable (by decide)).read_eq⟩
  exact hleaves.finished [.write [.int16 1, .int16 (-2)]] [.write [.int16 3, .int16 (-4)]] rfl
    (by decide)

end Wave64Writer

end SampleDemux
