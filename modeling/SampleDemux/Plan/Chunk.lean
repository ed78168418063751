import SampleDemux.Descriptor
import SampleDemux.Word
import SampleDemux.Decoder

/-!
# Chunk plans

A chunk plan is the list of the units of a chunk in the order of their bits: each unit is a run of
unused bits or one sample. A lump is repeated as often as it fits into the chunk. Every sample has
a call order, a number that says when it is handed on; the direction of a lump numbers its
repetitions and the direction of a stream numbers the samples of one repetition. A sample is handed
on in the order of these numbers, and equal numbers keep the order of the bits.
-/

namespace SampleDemux

-- The sums below start from the numeral `0`, whatever a reader of this file imports beside it.
attribute [local instance (high)] Zero.ofOfNat0

/-- What the bits of a unit are. -/
inductive UnitKind where
  /-- Unused bits. -/
  | padding
  /-- A sample: its stream's place in the plan's list, its decoder and its call order. -/
  | sample (stream : Nat) (decoder : Decoder) (callOrder : Nat)
  deriving DecidableEq

/-- One run of bits of a chunk. -/
structure PlanUnit where
  /-- Number of bits. -/
  bits : Nat
  /-- What the bits are. -/
  kind : UnitKind
  deriving DecidableEq

namespace PlanUnit

/-- Unused bits. -/
def padding (bits : Nat) : PlanUnit := ⟨bits, .padding⟩

/-- A sample of a stream. -/
def sample (stream : Nat) (decoder : Decoder) (callOrder : Nat) : PlanUnit :=
  ⟨decoder.bitWidth, .sample stream decoder callOrder⟩

/-- Whether the bits are unused. -/
def isPadding (unit : PlanUnit) : Bool :=
  match unit.kind with
  | .padding => true
  | .sample .. => false

/-- The call order of a sample. -/
def callOrder? (unit : PlanUnit) : Option Nat :=
  match unit.kind with
  | .padding => none
  | .sample _ _ order => some order

/-- The stream of a sample. -/
def stream? (unit : PlanUnit) : Option Nat :=
  match unit.kind with
  | .padding => none
  | .sample stream _ _ => some stream

end PlanUnit

/-- What a stream puts into one repetition of its lump. -/
structure StreamLayout where
  /-- The stream's place in the plan's list. -/
  stream : Nat
  /-- How its samples are decoded. -/
  decoder : Decoder
  /-- Number of samples. -/
  rateFactor : Nat
  /-- Bits, unused ones included. -/
  packedBits : Nat
  /-- Unused bits. -/
  paddingBits : Nat
  /-- Place of the unused bits. -/
  alignment : Alignment
  /-- Direction in which the samples are numbered. -/
  shift : Direction
  deriving DecidableEq

namespace StreamLayout

/-- Call order of the sample at a place in the order of the bits. The numbers rise from `base` when
the stream is numbered upwards; otherwise they fall from one past its last number. -/
def callOrder (layout : StreamLayout) (base place : Nat) : Nat :=
  match layout.shift with
  | .left => base + place
  | .right => base + layout.rateFactor - place

/-- The samples in the order of their bits. -/
def samples (layout : StreamLayout) (base : Nat) : List PlanUnit :=
  (List.range layout.rateFactor).map fun place =>
    .sample layout.stream layout.decoder (layout.callOrder base place)

/-- The samples with the unused bits before or after them. -/
def units (layout : StreamLayout) (base : Nat) : List PlanUnit :=
  if layout.paddingBits = 0 then layout.samples base
  else
    match layout.alignment with
    | .right => .padding layout.paddingBits :: layout.samples base
    | _ => layout.samples base ++ [.padding layout.paddingBits]

end StreamLayout

/-- A lump whose streams are laid out. -/
structure LumpLayout where
  /-- Direction in which the repetitions are numbered. -/
  shift : Direction
  /-- The streams of one repetition. -/
  streams : List StreamLayout
  /-- How often the lump fits into the chunk. -/
  repetitions : Nat
  deriving DecidableEq

namespace LumpLayout

/-- Bits of one repetition. -/
def bits (layouts : List StreamLayout) : Nat := (layouts.map (·.packedBits)).sum

/-- Samples of one repetition. -/
def samplesPerRepetition (layouts : List StreamLayout) : Nat :=
  (layouts.map (·.rateFactor)).sum

/-- The number from which the samples of a repetition are numbered. -/
def base (lump : LumpLayout) (repetition : Nat) : Nat :=
  match lump.shift with
  | .left => repetition * samplesPerRepetition lump.streams
  | .right => (lump.repetitions - repetition) * samplesPerRepetition lump.streams

/-- The units of one repetition; each stream is numbered from where the one before it ends. -/
def repetitionUnits (base : Nat) : List StreamLayout → List PlanUnit
  | [] => []
  | layout :: rest => layout.units base ++ repetitionUnits (base + layout.rateFactor) rest

/-- The units of all repetitions. -/
def units (lump : LumpLayout) : List PlanUnit :=
  (List.range lump.repetitions).flatMap fun repetition =>
    repetitionUnits (lump.base repetition) lump.streams

/-- Bits of all repetitions. -/
def consumed (lump : LumpLayout) : Nat := lump.repetitions * bits lump.streams

end LumpLayout

/-- The extraction sequence of one chunk. -/
structure ChunkPlan where
  /-- Width of the words. -/
  wordSize : WordSize
  /-- Byte order of the words. -/
  endian : ByteOrder
  /-- End of the words from which bits are taken. -/
  shift : Direction
  /-- Number of words. -/
  countWords : Nat
  /-- The units, in the order of their bits. -/
  units : List PlanUnit
  /-- Records of the streams, in the order of their first declarations. -/
  streams : List StreamRecord
  deriving DecidableEq

namespace ChunkPlan

/-- Size in bytes. -/
def sizeBytes (plan : ChunkPlan) : Nat := plan.wordSize.bytes * plan.countWords

/-- Size in bits. -/
def capacityBits (plan : ChunkPlan) : Nat := plan.sizeBytes * 8

/-- Number of samples. -/
def sampleCount (plan : ChunkPlan) : Nat := plan.units.countP (!·.isPadding)

/-- Number of unused bits. -/
def paddingBits (plan : ChunkPlan) : Nat :=
  ((plan.units.filter (·.isPadding)).map (·.bits)).sum

/-- The call orders of the samples among units, each with the unit's index. -/
def numberedSamples (units : List PlanUnit) : List (Nat × Nat) :=
  units.zipIdx.filterMap fun (unit, index) => unit.callOrder?.map fun order => (order, index)

/-- Indices of the samples in the order in which they are handed on: by call order, and by index
where call orders are equal. -/
def dispatchOrder (plan : ChunkPlan) : List Nat :=
  ((numberedSamples plan.units).mergeSort fun a b => decide (a.1 ≤ b.1)).map (·.2)

/-- The stream's place in the list of records. A stream that is not in the list is added with the
band that its declaration names first. -/
def streamIndex (descriptor : Descriptor) (system : System) (records : List StreamRecord)
    (stream : StreamDecl) : Except DescriptorError (Nat × List StreamRecord) :=
  match records.findIdx? (·.id == stream.id) with
  | some index => .ok (index, records)
  | none =>
    match stream.bands with
    | [] => .error (.missingBand stream.id)
    | bandId :: _ =>
      match descriptor.band? bandId with
      | none => .error (.unknownBand bandId)
      | some band => .ok (records.length, records ++ [.ofDecl stream system band])

/-- Lays a stream out and enters its record. -/
def layoutStream (descriptor : Descriptor) (system : System) (records : List StreamRecord)
    (stream : StreamDecl) : Except DescriptorError (StreamLayout × List StreamRecord) :=
  if stream.rateFactor = 0 then .error (.zeroRateFactor stream.id)
  else
    match Decoder.ofWidth? stream.format stream.encoding stream.quantization with
    | none =>
      .error (.unsupportedQuantization stream.id stream.quantization stream.encoding)
    | some decoder =>
      let used := stream.rateFactor * decoder.bitWidth
      if stream.packedBits < used then
        .error (.streamUnderpacked stream.id stream.packedBits used)
      else if used < stream.packedBits ∧ stream.alignment = .undefined then
        .error (.undefinedAlignment stream.id (stream.packedBits - used))
      else
        match streamIndex descriptor system records stream with
        | .error error => .error error
        | .ok (index, records) =>
          .ok ({ stream := index, decoder, rateFactor := stream.rateFactor
                 packedBits := stream.packedBits, paddingBits := stream.packedBits - used
                 alignment := stream.alignment, shift := stream.shift }, records)

/-- Lays the streams of a lump out, one after the other. -/
def layoutStreams (descriptor : Descriptor) (system : System) (records : List StreamRecord) :
    List StreamDecl → Except DescriptorError (List StreamLayout × List StreamRecord)
  | [] => .ok ([], records)
  | stream :: rest =>
    match layoutStream descriptor system records stream with
    | .error error => .error error
    | .ok (layout, records) =>
      match layoutStreams descriptor system records rest with
      | .error error => .error error
      | .ok (layouts, records) => .ok (layout :: layouts, records)

/-- Lays a lump out in a chunk of so many bits, padded or not. -/
def layoutLump (descriptor : Descriptor) (system : System) (capacity : Nat) (padded : Bool)
    (records : List StreamRecord) (index : Nat) (lump : LumpDecl) :
    Except DescriptorError (LumpLayout × List StreamRecord) :=
  if lump.streams.isEmpty then .error (.emptyLump index)
  else
    match layoutStreams descriptor system records lump.streams with
    | .error error => .error error
    | .ok (layouts, records) =>
      let bits := LumpLayout.bits layouts
      if bits = 0 then .error (.zeroBitLump index)
      else if capacity % bits ≠ 0 ∧ padded = false then
        .error (.lumpRepeatNotIntegral index bits capacity)
      else .ok (⟨lump.shift, layouts, capacity / bits⟩, records)

/-- Lays lumps out, one after the other; the first one has the given index. -/
def layoutLumps (descriptor : Descriptor) (system : System) (capacity : Nat) (padded : Bool)
    (records : List StreamRecord) (index : Nat) :
    List LumpDecl → Except DescriptorError (List LumpLayout × List StreamRecord)
  | [] => .ok ([], records)
  | lump :: rest =>
    match layoutLump descriptor system capacity padded records index lump with
    | .error error => .error error
    | .ok (layout, records) =>
      match layoutLumps descriptor system capacity padded records (index + 1) rest with
      | .error error => .error error
      | .ok (layouts, records) => .ok (layout :: layouts, records)

/-- Fills the rest of a chunk: `used` bits are taken by the units. -/
def fill (padding : Padding) (capacity used : Nat) (units : List PlanUnit) :
    Except DescriptorError (List PlanUnit) :=
  if capacity < used then .error (.chunkOverflow used capacity)
  else if used = capacity then .ok units
  else
    match padding with
    | .head => .ok (.padding (capacity - used) :: units)
    | .tail => .ok (units ++ [.padding (capacity - used)])
    | .none => .error (.unfilledChunk used capacity)

/-- The plan of a chunk, with frequencies from a system and from the bands of a descriptor. -/
def build (descriptor : Descriptor) (system : System) (chunk : ChunkDecl) :
    Except DescriptorError ChunkPlan :=
  match WordSize.ofBytes chunk.sizeWord with
  | .error error => .error error
  | .ok wordSize =>
    if chunk.countWords = 0 then .error .emptyChunk
    else
      match chunk.capacityBits? with
      | none => .error (.chunkTooLarge chunk.sizeWord chunk.countWords)
      | some capacity =>
        match layoutLumps descriptor system capacity (chunk.padding != .none) [] 0
            chunk.lumps with
        | .error error => .error error
        | .ok (lumps, streams) =>
          match fill chunk.padding capacity (lumps.map (·.consumed)).sum
              (lumps.flatMap (·.units)) with
          | .error error => .error error
          | .ok units =>
            .ok { wordSize, endian := chunk.endian, shift := chunk.shift
                  countWords := chunk.countWords, units, streams }

end ChunkPlan

end SampleDemux
