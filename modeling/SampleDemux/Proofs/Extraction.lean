import SampleDemux.Proofs.WordValue
import SampleDemux.Proofs.Placement

/-!
# What the units of a chunk are decoded from

A unit holds fields side by side: a sample has one for each component and unused bits are one field.
Extracting a chunk reads the fields of its units and decodes them, and every field is a run of bits
of the number that the chunk's words form. So a component is a quotient of this number, reduced by
a power of two, whatever bytes and words it lies in. How fields are put into a buffer is left to
others.
-/

namespace SampleDemux

namespace SampleFormat

/-- The letters of a name in their order, each with whether the mark of a negated component follows
it. -/
def markedLetters : List Char → List (Char × Bool)
  | [] => []
  | letter :: 'n' :: rest => (letter, true) :: markedLetters rest
  | letter :: rest => (letter, false) :: markedLetters rest

/-- The components that a format's name lists, in the order in which they are stored. The `F` of a
real format's name is none. -/
def namedComponents (format : SampleFormat) : List (Char × Bool) :=
  markedLetters (format.name.toList.filter (· != 'F'))

/-- The value that a name gives to a letter: that of the component stored at the letter's place,
negated if it is so marked. -/
def namedValue (format : SampleFormat) (values : List Float) (letter : Char) : Option Float :=
  ((format.namedComponents.zip values).find? (·.1.1 == letter)).map fun stored =>
    if stored.1.2 then -stored.2 else stored.2

/-- The sample that a name gives to stored components: the pair of the values of `I` and `Q`, or the
value of `I` if there is no `Q`. -/
def sampleByName (format : SampleFormat) (values : List Float) : Option Sample :=
  match format.namedValue values 'I', format.namedValue values 'Q' with
  | some i, some q => some (.complex i q)
  | some i, none => some (.real i)
  | none, _ => none

/-- The name of a real format lists its component. -/
theorem namedComponents_real (negated : Bool) :
    (real negated).namedComponents = [('I', negated)] := by
  cases negated <;> rfl

/-- The name of a complex format lists its components in their stored order. -/
theorem namedComponents_complex (first negatedI negatedQ : Bool) :
    (complex first negatedI negatedQ).namedComponents =
      if first then [('Q', negatedQ), ('I', negatedI)] else [('I', negatedI), ('Q', negatedQ)] := by
  cases first <;> cases negatedI <;> cases negatedQ <;> rfl

end SampleFormat

/-- A decoder gives the sample that its format's name describes. -/
theorem Decoder.sampleByName_eq (decoder : Decoder) {fields : List ℕ}
    (h : fields.length = decoder.format.components) :
    decoder.format.sampleByName (fields.map decoder.component) =
      some (decoder.sample (fields.getD 0 0) (fields.getD 1 0)) := by
  rcases decoder with ⟨format, encoding, quantization, supported⟩
  cases format with
  | real negated =>
    rcases List.length_eq_one_iff.mp h with ⟨first, rfl⟩
    simp [SampleFormat.sampleByName, SampleFormat.namedValue, SampleFormat.namedComponents_real,
      sample, negateIf]
  | complex quadratureFirst negatedI negatedQ =>
    rcases List.length_eq_two.mp h with ⟨first, second, rfl⟩
    cases quadratureFirst <;>
      simp [SampleFormat.sampleByName, SampleFormat.namedValue,
        SampleFormat.namedComponents_complex, sample, negateIf]

/-- The widths of the fields of a unit. -/
def PlanUnit.fieldWidths (unit : PlanUnit) : List ℕ :=
  match unit.kind with
  | .padding => [unit.bits]
  | .sample _ decoder _ => List.replicate decoder.format.components decoder.quantization

/-- The value of a unit with fields; unused bits give none. -/
def PlanUnit.decode (unit : PlanUnit) (fields : List ℕ) : Option Sample :=
  match unit.kind with
  | .padding => none
  | .sample _ decoder _ => some (decoder.sample (fields.getD 0 0) (fields.getD 1 0))

/-- The fields of a well-formed unit are its bits. -/
theorem PlanUnit.WellFormed.sum_fieldWidths {records : List StreamRecord} {unit : PlanUnit}
    (h : unit.WellFormed records) : unit.fieldWidths.sum = unit.bits := by
  rcases unit with ⟨bits, kind⟩
  cases kind with
  | padding => simp [fieldWidths]
  | sample stream decoder order =>
    obtain ⟨hbits, -⟩ : bits = decoder.bitWidth ∧ stream < records.length := h
    simp [fieldWidths, hbits, Decoder.bitWidth]

/-- The fields of well-formed units are their bits. -/
theorem sum_fieldWidths {records : List StreamRecord} {units : List PlanUnit}
    (h : ∀ unit ∈ units, unit.WellFormed records) :
    (units.flatMap (·.fieldWidths)).sum = unitBits units := by
  induction units with
  | nil => rfl
  | cons unit units ih =>
    rw [List.flatMap_cons, List.sum_append, unitBits_cons,
      (h unit List.mem_cons_self).sum_fieldWidths,
      ih fun other hother => h other (List.mem_cons_of_mem _ hother)]

/-- The fields of units, cut from a number from a place on. -/
def cutUnits (order : BitOrder) (capacity number : ℕ) : ℕ → List PlanUnit → List (List ℕ)
  | _, [] => []
  | start, unit :: rest =>
    splitAll order capacity number start unit.fieldWidths ::
      cutUnits order capacity number (start + unit.bits) rest

/-- The fields of a unit are cut behind the bits of all units before it. -/
theorem getElem?_cutUnits (order : BitOrder) (capacity number start : ℕ) (units : List PlanUnit)
    (index : ℕ) :
    (cutUnits order capacity number start units)[index]? =
      (units[index]?).map fun unit =>
        splitAll order capacity number (start + unitBits (units.take index)) unit.fieldWidths := by
  induction units generalizing start index with
  | nil => rfl
  | cons unit units ih =>
    cases index with
    | zero => rfl
    | succ index =>
      rw [cutUnits, List.getElem?_cons_succ, ih, List.getElem?_cons_succ, List.take_succ_cons,
        unitBits_cons, Nat.add_assoc]

/-- The fields of all units are cut side by side. -/
theorem flatten_cutUnits (order : BitOrder) (capacity number start : ℕ)
    {records : List StreamRecord} {units : List PlanUnit}
    (h : ∀ unit ∈ units, unit.WellFormed records) :
    (cutUnits order capacity number start units).flatten =
      splitAll order capacity number start (units.flatMap (·.fieldWidths)) := by
  induction units generalizing start with
  | nil => rfl
  | cons unit units ih =>
    rw [cutUnits, List.flatten_cons, List.flatMap_cons, splitAll_append,
      (h unit List.mem_cons_self).sum_fieldWidths,
      ih _ fun other hother => h other (List.mem_cons_of_mem _ hother)]

namespace ChunkRunner

/-- The fields of the next unit and the reader behind it. -/
def readFields (reader : BitReader) (unit : PlanUnit) : Except BitError (List ℕ × BitReader) :=
  match unit.kind with
  | .padding =>
    (reader.skip unit.bits).map fun behind =>
      ([BitReader.bitsFrom reader.order reader.data reader.position unit.bits], behind)
  | .sample _ decoder _ => do
    let (first, reader) ← reader.get decoder.quantization
    if decoder.format.isComplex then
      let (second, reader) ← reader.get decoder.quantization
      return ([first, second], reader)
    else return ([first], reader)

/-- The fields of units and the reader behind them. -/
def readAllFields (reader : BitReader) :
    List PlanUnit → Except BitError (List (List ℕ) × BitReader)
  | [] => .ok ([], reader)
  | unit :: rest =>
    match readFields reader unit with
    | .error error => .error error
    | .ok (fields, reader) =>
      match readAllFields reader rest with
      | .error error => .error error
      | .ok (contents, reader) => .ok (fields :: contents, reader)

/-- A unit is extracted by reading its fields and decoding them. -/
theorem extractUnit_eq_decode (reader : BitReader) (unit : PlanUnit) :
    extractUnit reader unit =
      (readFields reader unit).map fun (fields, reader) => (unit.decode fields, reader) := by
  rcases unit with ⟨bits, kind⟩
  cases kind with
  | padding =>
    simp only [extractUnit, readFields]
    cases reader.skip bits <;> rfl
  | sample stream decoder order =>
    simp only [extractUnit, readFields, BitReader.sample, bind, Except.bind]
    cases reader.get decoder.quantization with
    | error error => rfl
    | ok first =>
      rcases first with ⟨first, reader⟩
      cases hcomplex : decoder.format.isComplex with
      | false => rfl
      | true =>
        simp only [if_true]
        cases reader.get decoder.quantization <;> rfl

/-- Units are extracted by reading their fields and decoding them. -/
theorem extract_eq_decode (reader : BitReader) (units : List PlanUnit) :
    extract reader units =
      (readAllFields reader units).map fun (contents, reader) =>
        (List.zipWith PlanUnit.decode units contents, reader) := by
  induction units generalizing reader with
  | nil => rfl
  | cons unit units ih =>
    rw [extract, readAllFields, extractUnit_eq_decode]
    cases readFields reader unit with
    | error error => rfl
    | ok read =>
      rcases read with ⟨fields, behind⟩
      simp only [Except.map, ih]
      cases readAllFields behind units <;> rfl

variable {records : List StreamRecord}

/-- Reading the fields of a unit that is there cuts them from the reader's number. -/
theorem readFields_eq_cut (reader : BitReader) {unit : PlanUnit} (hunit : unit.WellFormed records)
    (h : reader.position + unit.bits ≤ 8 * reader.data.size) :
    readFields reader unit =
      .ok (splitAll reader.order (8 * reader.data.size)
        (BitReader.number reader.order reader.data.toList) reader.position unit.fieldWidths,
        reader.advance unit.bits) := by
  rcases unit with ⟨bits, kind⟩
  cases kind with
  | padding =>
    simp only [readFields, PlanUnit.fieldWidths, reader.skip_eq_advance h, Except.map, splitAll,
      BitReader.bitsFrom_eq_bitField _ _ _ _ h]
  | sample stream decoder order =>
    obtain ⟨rfl, -⟩ : bits = decoder.bitWidth ∧ stream < records.length := hunit
    have hcount : decoder.quantization ≤ maxReadBits := decoder.quantization_bounds.2
    simp only [Decoder.bitWidth, SampleFormat.components] at h
    simp only [readFields, PlanUnit.fieldWidths, Decoder.bitWidth, SampleFormat.components]
    cases hcomplex : decoder.format.isComplex with
    | false =>
      rw [hcomplex, if_neg Bool.false_ne_true, Nat.one_mul] at h
      rw [reader.get_eq_field hcount h, if_neg Bool.false_ne_true, Nat.one_mul]
      rfl
    | true =>
      rw [hcomplex, if_pos rfl] at h
      have hsecond : (reader.advance decoder.quantization).position + decoder.quantization ≤
          8 * (reader.advance decoder.quantization).data.size := by
        simp only [BitReader.advance]
        omega
      rw [reader.get_eq_field hcount (by omega)]
      simp only [bind, Except.bind, if_true, BitReader.get_eq_field _ hcount hsecond,
        BitReader.advance_advance]
      rw [Nat.two_mul]
      rfl

/-- Reading the fields of units that are there cuts them from the reader's number. -/
theorem readAllFields_eq_cut (reader : BitReader) {units : List PlanUnit}
    (hunits : ∀ unit ∈ units, unit.WellFormed records)
    (h : reader.position + unitBits units ≤ 8 * reader.data.size) :
    readAllFields reader units =
      .ok (cutUnits reader.order (8 * reader.data.size)
        (BitReader.number reader.order reader.data.toList) reader.position units,
        reader.advance (unitBits units)) := by
  induction units generalizing reader with
  | nil => rfl
  | cons unit units ih =>
    rw [unitBits_cons] at h
    have hrest := ih (reader.advance unit.bits)
      (fun other hother => hunits other (List.mem_cons_of_mem _ hother))
      (by simp only [BitReader.advance]; omega)
    rw [readAllFields, readFields_eq_cut reader (hunits unit List.mem_cons_self) (by omega)]
    simp only [hrest, BitReader.advance_advance]
    rfl

end ChunkRunner

namespace ChunkPlan

/-- The fields of all units in the bytes of a chunk. -/
def contents (plan : ChunkPlan) (data : List UInt8) : List (List ℕ) :=
  cutUnits plan.shift.bitOrder plan.capacityBits (plan.number data) 0 plan.units

/-- A component of the sample that begins at a bit, in the number that the words form. -/
def rawComponent (plan : ChunkPlan) (number start quantization component : ℕ) : ℕ :=
  match plan.shift with
  | .left =>
    number / 2 ^ (plan.capacityBits - start - (component + 1) * quantization) % 2 ^ quantization
  | .right => number / 2 ^ (start + component * quantization) % 2 ^ quantization

variable (plan : ChunkPlan) {data : List UInt8}

/-- A component is a run of bits behind the components before it. -/
theorem rawComponent_eq_bitField (number start quantization component : ℕ) :
    plan.rawComponent number start quantization component =
      bitField plan.shift.bitOrder plan.capacityBits number (start + component * quantization)
        quantization := by
  unfold rawComponent bitField
  cases plan.shift with
  | left =>
    have hplace : plan.capacityBits - start - (component + 1) * quantization =
        plan.capacityBits - (start + component * quantization) - quantization := by
      rw [Nat.succ_mul]
      omega
    rw [hplace]
    rfl
  | right => rfl

/-- The bit reader of a chunk walks the bytes of its rewritten words. -/
theorem bitReader_eq :
    ChunkRunner.bitReader plan data =
      { order := plan.shift.bitOrder
        data := (plan.wordSize.reorder data plan.endian plan.shift.byteOrder).toArray } := by
  unfold ChunkRunner.bitReader
  cases plan.shift <;> rfl

/-- The bit reader of a chunk has all its bits. -/
theorem size_bitReader (hdata : data.length = plan.sizeBytes) :
    8 * (ChunkRunner.bitReader plan data).data.size = plan.capacityBits := by
  rw [bitReader_eq, List.size_toArray, plan.wordSize.length_reorder _ _ hdata, capacityBits,
    sizeBytes, Nat.mul_comm]

/-- The fields of a unit are runs behind the bits of all units before it. -/
theorem getElem?_contents (index : ℕ) :
    (plan.contents data)[index]? =
      (plan.units[index]?).map fun unit =>
        splitAll plan.shift.bitOrder plan.capacityBits (plan.number data) (plan.startOf index)
          unit.fieldWidths := by
  rw [contents, getElem?_cutUnits]
  simp only [Nat.zero_add]
  rfl

/-- There are fields for every unit. -/
@[simp]
theorem length_contents : (plan.contents data).length = plan.units.length := by
  refine le_antisymm ?_ ?_
  · rw [← List.getElem?_eq_none_iff, getElem?_contents, List.getElem?_eq_none le_rfl]
    rfl
  · rw [← List.getElem?_eq_none_iff, ← Option.map_eq_none_iff, ← getElem?_contents,
      List.getElem?_eq_none le_rfl]

end ChunkPlan

namespace ChunkPlan.BuiltFrom

variable {descriptor : Descriptor} {system : System} {chunk : ChunkDecl} {plan : ChunkPlan}
  {layouts : List LumpLayout} {data : List UInt8}

/-- Reading the fields of a built plan succeeds, passes over the whole chunk and cuts the number of
its words. -/
theorem readAllFields_eq (h : BuiltFrom descriptor system chunk plan layouts)
    (hdata : data.length = plan.sizeBytes) :
    ChunkRunner.readAllFields (ChunkRunner.bitReader plan data) plan.units =
      .ok (plan.contents data,
        { ChunkRunner.bitReader plan data with position := plan.capacityBits }) := by
  have hsize := plan.size_bitReader hdata
  have hread := ChunkRunner.readAllFields_eq_cut (ChunkRunner.bitReader plan data)
    h.wellFormed_units (by rw [hsize, h.unitBits_units, bitReader_eq, Nat.zero_add])
  rw [hread, hsize, h.unitBits_units, contents, ← plan.number_reorder hdata]
  simp only [bitReader_eq, BitReader.advance, Nat.zero_add, List.toList_toArray]

/-- Extracting a built plan succeeds, passes over the whole chunk and decodes the fields of its
units. -/
theorem extract_eq (h : BuiltFrom descriptor system chunk plan layouts)
    (hdata : data.length = plan.sizeBytes) :
    ChunkRunner.extract (ChunkRunner.bitReader plan data) plan.units =
      .ok (List.zipWith PlanUnit.decode plan.units (plan.contents data),
        { ChunkRunner.bitReader plan data with position := plan.capacityBits }) := by
  rw [ChunkRunner.extract_eq_decode, h.readAllFields_eq hdata]
  rfl

/-- The values of a built plan are decoded from the fields of its units. -/
theorem values_eq (h : BuiltFrom descriptor system chunk plan layouts)
    (hdata : data.length = plan.sizeBytes) :
    ChunkRunner.values plan data =
      .ok (List.zipWith PlanUnit.decode plan.units (plan.contents data)) := by
  rw [ChunkRunner.values, h.extract_eq hdata]
  rfl

end ChunkPlan.BuiltFrom

namespace ChunkPlan

variable {descriptor : Descriptor} {system : System} {chunk : ChunkDecl} {plan : ChunkPlan}
  {data : List UInt8}

/-- The fields of a sample are its components. -/
theorem splitAll_components (plan : ChunkPlan) (number start quantization components : ℕ) :
    splitAll plan.shift.bitOrder plan.capacityBits number start
      (List.replicate components quantization) =
      (List.range components).map (plan.rawComponent number start quantization) := by
  rw [splitAll_replicate]
  exact List.map_congr_left fun component _ => (plan.rawComponent_eq_bitField ..).symm

/-- The sample that a format's name gives to its components is decoded from the fields of the
unit. -/
theorem sampleByName_components (plan : ChunkPlan) (number start : ℕ) {bits stream order : ℕ}
    (decoder : Decoder) :
    decoder.format.sampleByName
      ((List.range decoder.format.components).map fun component =>
        decoder.component (plan.rawComponent number start decoder.quantization component)) =
      PlanUnit.decode ⟨bits, .sample stream decoder order⟩
        (splitAll plan.shift.bitOrder plan.capacityBits number start
          (PlanUnit.fieldWidths ⟨bits, .sample stream decoder order⟩)) := by
  simp only [PlanUnit.fieldWidths, PlanUnit.decode]
  rw [plan.splitAll_components, ← decoder.sampleByName_eq (by simp), List.map_map]
  rfl

/-- Reversed words have the same fields in the opposite byte order. -/
theorem contents_reversedWords (plan : ChunkPlan) (hdata : data.length = plan.sizeBytes) :
    contents { plan with endian := plan.endian.opposite } (plan.reversedWords data) =
      plan.contents data := by
  rw [contents, contents, plan.number_reversedWords hdata]
  rfl

/-- The value at a place is decoded from the fields of the unit at that place. -/
theorem getElem?_decoded {index : ℕ} {unit : PlanUnit} (hunit : plan.units[index]? = some unit) :
    (List.zipWith PlanUnit.decode plan.units (plan.contents data))[index]? =
      some (unit.decode (splitAll plan.shift.bitOrder plan.capacityBits (plan.number data)
        (plan.startOf index) unit.fieldWidths)) := by
  rw [List.getElem?_zipWith, getElem?_contents, hunit]
  rfl

/-- What is extracted from the bytes of a chunk by a plan. -/
structure ExtractsWords (descriptor : Descriptor) (system : System) (chunk : ChunkDecl)
    (plan : ChunkPlan) (data : List UInt8) (values : List (Option Sample)) : Prop where
  /-- Extracting succeeds and leaves the reader exactly behind the last bit. -/
  extract_eq : ChunkRunner.extract (ChunkRunner.bitReader plan data) plan.units =
    .ok (values, { ChunkRunner.bitReader plan data with position := plan.capacityBits })
  /-- There is a place for every unit. -/
  length_eq : values.length = plan.units.length
  /-- Unused bits give no value, and a sample is the one that its format's name gives to its
  components, each of them a quotient of the number of the words reduced by a power of two. -/
  units : ∀ index (unit : PlanUnit), plan.units[index]? = some unit →
    match unit.kind with
    | .padding => values[index]? = some none
    | .sample _ decoder _ => ∃ sample, values[index]? = some (some sample) ∧
        decoder.format.sampleByName
          ((List.range decoder.format.components).map fun component =>
            decoder.component (plan.rawComponent (plan.number data) (plan.startOf index)
              decoder.quantization component)) = some sample
  /-- The bytes of a chunk come to these values. -/
  values_eq : ChunkRunner.values plan data = .ok values
  /-- The chunk can be declared with the opposite byte order. -/
  opposite : build descriptor system { chunk with endian := chunk.endian.opposite } =
    .ok { plan with endian := plan.endian.opposite }
  /-- Then the same words with their bytes reversed give the same values. -/
  reversed : ChunkRunner.values { plan with endian := plan.endian.opposite }
    (plan.reversedWords data) = .ok values

/-- Extracting the bytes of a chunk by a built plan gives the values that its words hold. -/
theorem build_extracts_word_values (h : build descriptor system chunk = .ok plan)
    (hdata : data.length = plan.sizeBytes) :
    ∃ values, ExtractsWords descriptor system chunk plan data values := by
  rcases build_ok h with ⟨layouts, hbuilt⟩
  have hopposite : build descriptor system { chunk with endian := chunk.endian.opposite } =
      .ok { plan with endian := plan.endian.opposite } := by
    rw [build_with_endian, h, hbuilt.endian]
    rfl
  refine ⟨_, {
    extract_eq := hbuilt.extract_eq hdata
    length_eq := by simp
    units := ?_
    values_eq := hbuilt.values_eq hdata
    opposite := hopposite
    reversed := ?_ }⟩
  · intro index unit hunit
    have hvalue := @getElem?_decoded plan data index unit hunit
    rcases unit with ⟨bits, kind⟩
    cases kind with
    | padding => exact hvalue
    | sample stream decoder order =>
      exact ⟨_, hvalue, plan.sampleByName_components _ _ decoder⟩
  · rcases build_ok hopposite with ⟨others, hother⟩
    rw [hother.values_eq (plan.length_reversedWords hdata), plan.contents_reversedWords hdata]

/-- The bytes of a chunk with every kind of unit. -/
def packedBytes : List UInt8 := [0x12, 0x34, 0x56, 0x78, 0x9a, 0xbc]

/-- The chunk with every kind of unit is extracted from its bytes. -/
theorem build_extracts_word_values_of_packedChunk :
    ∃ plan values, build packedDescriptor {} packedChunk = .ok plan ∧
      packedBytes.length = plan.sizeBytes ∧
      ChunkRunner.values plan packedBytes = .ok values ∧ values.length = 17 := by
  obtain ⟨plan, hplan, hsize, hunits⟩ : ∃ plan, build packedDescriptor {} packedChunk = .ok plan ∧
      packedBytes.length = plan.sizeBytes ∧ plan.units.length = 17 := ⟨_, rfl, rfl, rfl⟩
  rcases build_extracts_word_values hplan hsize with ⟨values, hextracts⟩
  exact ⟨plan, values, hplan, hsize, hextracts.values_eq, hextracts.length_eq.trans hunits⟩

end ChunkPlan

end SampleDemux
