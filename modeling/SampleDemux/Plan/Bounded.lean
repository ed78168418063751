import SampleDemux.Plan.Chunk

/-!
# Chunk plans in numbers of a range

A plan is built with numbers of 64 bits. Here each sum, difference, product and quotient is a step
of its own, made in the order in which the loops over lumps, repetitions, streams and samples come
to it, and a step whose result is no number of the range stops the building. Call orders are moved
on after each sample, also after the last one of a stream, and have a range of their own, so that it
can be asked how large they become.
-/

namespace SampleDemux

/-- Why building a plan stops. -/
inductive PlanStop where
  /-- The chunk has no plan. -/
  | refused (error : DescriptorError)
  /-- A result is no number of the range, or a divisor is zero. -/
  | outOfRange
  deriving DecidableEq

namespace BoundedPlan

/-- The largest number of 64 bits. -/
def largestWord : Nat := Nat.pow 2 64 - 1

/-- A chunk has no plan. -/
def refuse {α : Type} (error : DescriptorError) : Except PlanStop α := .error (.refused error)

/-- A sum of the range from 0 to a largest number. -/
def add (largest a b : Nat) : Except PlanStop Nat :=
  if a + b ≤ largest then .ok (a + b) else .error .outOfRange

/-- A product of the range from 0 to a largest number. -/
def mul (largest a b : Nat) : Except PlanStop Nat :=
  if a * b ≤ largest then .ok (a * b) else .error .outOfRange

/-- A difference that is not negative. -/
def sub (a b : Nat) : Except PlanStop Nat := if b ≤ a then .ok (a - b) else .error .outOfRange

/-- A quotient by a divisor that is not zero. -/
def div (a b : Nat) : Except PlanStop Nat := if b = 0 then .error .outOfRange else .ok (a / b)

/-- A remainder by a divisor that is not zero. -/
def mod (a b : Nat) : Except PlanStop Nat := if b = 0 then .error .outOfRange else .ok (a % b)

/-- The sum of counts, added to a first one in their order. -/
def sumFrom (start : Nat) (counts : List Nat) : Except PlanStop Nat :=
  counts.foldlM (add largestWord) start

section Units

-- The largest call order, the direction of the lump and its repetitions and samples.
variable (largest : Nat) (shift : Direction) (repetitions perRepetition : Nat)

/-- Moves a call order on, in the direction of a stream. -/
def nextOrder (direction : Direction) (order : Nat) : Except PlanStop Nat :=
  match direction with
  | .left => add largest order 1
  | .right => sub order 1

/-- So many samples of a stream, from a call order on. -/
def samplesFrom (layout : StreamLayout) : Nat → Nat → Except PlanStop (List PlanUnit)
  | 0, _ => .ok []
  | count + 1, order => do
    let next ← nextOrder largest layout.shift order
    let samples ← samplesFrom layout count next
    return .sample layout.stream layout.decoder order :: samples

/-- How many repetitions are numbered before one. -/
def turnOf (repetition : Nat) : Except PlanStop Nat :=
  match shift with
  | .left => .ok repetition
  | .right => sub repetitions repetition

/-- The number of the first sample of a stream in a repetition, behind so many samples. -/
def firstOrder (repetition before : Nat) (layout : StreamLayout) : Except PlanStop Nat := do
  let turn ← turnOf shift repetitions repetition
  let start ← mul largest turn perRepetition
  let order ← add largest start before
  match layout.shift with
  | .left => return order
  | .right => add largest order layout.rateFactor

/-- The samples of a stream with its unused bits before or after them. -/
def withPadding (layout : StreamLayout) (samples : List PlanUnit) : List PlanUnit :=
  if layout.paddingBits = 0 then samples
  else
    match layout.alignment with
    | .right => .padding layout.paddingBits :: samples
    | _ => samples ++ [.padding layout.paddingBits]

/-- The units of streams in a repetition, behind so many samples of it. -/
def streamsUnits (repetition : Nat) : Nat → List StreamLayout → Except PlanStop (List PlanUnit)
  | _, [] => .ok []
  | before, layout :: rest => do
    let order ← firstOrder largest shift repetitions perRepetition repetition before layout
    let samples ← samplesFrom largest layout layout.rateFactor order
    let behind ← add largest before layout.rateFactor
    let units ← streamsUnits repetition behind rest
    return withPadding layout samples ++ units

/-- The units of all repetitions of a lump. -/
def lumpUnits (layouts : List StreamLayout) : Except PlanStop (List PlanUnit) := do
  let units ← (List.range repetitions).mapM fun repetition =>
    streamsUnits largest shift repetitions perRepetition repetition 0 layouts
  return units.flatten

end Units

/-- The bits that are used behind all repetitions of streams, added stream by stream. -/
def usedBehind (packedBits : List Nat) : Nat → Nat → Except PlanStop Nat
  | 0, used => .ok used
  | repetitions + 1, used => do
    let used ← sumFrom used packedBits
    usedBehind packedBits repetitions used

section Layout

variable (descriptor : Descriptor) (system : System)

/-- Lays a stream out. -/
def layoutStream (records : List StreamRecord) (stream : StreamDecl) :
    Except PlanStop (StreamLayout × List StreamRecord) :=
  if stream.rateFactor = 0 then refuse (.zeroRateFactor stream.id)
  else
    match Decoder.ofWidth? stream.format stream.encoding stream.quantization with
    | none =>
      refuse (.unsupportedQuantization stream.id stream.quantization stream.encoding)
    | some decoder => do
      let used ← mul largestWord stream.rateFactor decoder.bitWidth
      if stream.packedBits < used then
        refuse (.streamUnderpacked stream.id stream.packedBits used)
      else
        let paddingBits ← sub stream.packedBits used
        if 0 < paddingBits ∧ stream.alignment = .undefined then
          refuse (.undefinedAlignment stream.id paddingBits)
        else
          let (index, records) ←
            (ChunkPlan.streamIndex descriptor system records stream).mapError .refused
          return ({ stream := index, decoder, rateFactor := stream.rateFactor
                    packedBits := stream.packedBits, paddingBits
                    alignment := stream.alignment, shift := stream.shift }, records)

/-- Lays the streams of a lump out, one after the other. -/
def layoutStreams (records : List StreamRecord) :
    List StreamDecl → Except PlanStop (List StreamLayout × List StreamRecord)
  | [] => .ok ([], records)
  | stream :: rest => do
    let (layout, records) ← layoutStream descriptor system records stream
    let (layouts, records) ← layoutStreams records rest
    return (layout :: layouts, records)

/-- What is built of a plan. -/
structure Progress where
  /-- The units so far. -/
  units : List PlanUnit := []
  /-- The records so far. -/
  records : List StreamRecord := []
  /-- The bits that the units take. -/
  used : Nat := 0
  deriving DecidableEq

-- The largest call order of a lump with so many repetitions of so many samples.
variable (largestOrder : Nat → Nat → Nat) (capacity : Nat) (padded : Bool)

/-- Adds the units of a lump in a chunk of so many bits, padded or not. -/
def addLump (progress : Progress) (index : Nat) (lump : LumpDecl) : Except PlanStop Progress :=
  if lump.streams.isEmpty then refuse (.emptyLump index)
  else do
    let (layouts, records) ← layoutStreams descriptor system progress.records lump.streams
    let bits ← sumFrom 0 (layouts.map (·.packedBits))
    if bits = 0 then refuse (.zeroBitLump index)
    else
      let rest ← mod capacity bits
      if rest ≠ 0 ∧ padded = false then refuse (.lumpRepeatNotIntegral index bits capacity)
      else
        let repetitions ← div capacity bits
        let perRepetition ← sumFrom 0 (layouts.map (·.rateFactor))
        let units ← lumpUnits (largestOrder repetitions perRepetition) lump.shift repetitions
          perRepetition layouts
        let used ← usedBehind (layouts.map (·.packedBits)) repetitions progress.used
        return ⟨progress.units ++ units, records, used⟩

/-- Adds the units of lumps, one after the other; the first one has the given index. -/
def addLumps (progress : Progress) (index : Nat) : List LumpDecl → Except PlanStop Progress
  | [] => .ok progress
  | lump :: rest => do
    let progress ←
      addLump descriptor system largestOrder capacity padded progress index lump
    addLumps progress (index + 1) rest

/-- Fills the rest of a chunk. -/
def fill (padding : Padding) (progress : Progress) : Except PlanStop (List PlanUnit) :=
  if capacity < progress.used then refuse (.chunkOverflow progress.used capacity)
  else do
    let spare ← sub capacity progress.used
    if spare = 0 then return progress.units
    else
      match padding with
      | .head => return .padding spare :: progress.units
      | .tail => return progress.units ++ [.padding spare]
      | .none => refuse (.unfilledChunk progress.used capacity)

/-- The plan of a chunk. -/
def build (chunk : ChunkDecl) : Except PlanStop ChunkPlan := do
  let wordSize ← (WordSize.ofBytes chunk.sizeWord).mapError .refused
  if chunk.countWords = 0 then refuse .emptyChunk
  else
    match chunk.capacityBits? with
    | none => refuse (.chunkTooLarge chunk.sizeWord chunk.countWords)
    | some capacity => do
      let progress ← addLumps descriptor system largestOrder capacity (chunk.padding != .none)
        {} 0 chunk.lumps
      let units ← fill capacity chunk.padding progress
      return { wordSize, endian := chunk.endian, shift := chunk.shift
               countWords := chunk.countWords, units, streams := progress.records }

end Layout

/-- Call orders are numbers of 64 bits. -/
def orderWord (_repetitions _perRepetition : Nat) : Nat := largestWord

/-- Call orders reach no further than one more repetition would begin. -/
def orderEnd (repetitions perRepetition : Nat) : Nat :=
  repetitions * perRepetition + perRepetition

end BoundedPlan

end SampleDemux
