import SampleDemux.Proofs.Extraction
import Mathlib.Data.Nat.Bitwise

/-!
# Encoding the contents of a chunk

The encoder puts a value into every field of every unit and stores the words of the number that is
made so. The units cover the chunk without a gap or an overlap, so encoding and reading are inverse
to each other for every built plan. What the bits of a buffer have to do with its samples follows:
unused bits are without effect and every other bit is a part of a component.
-/

namespace SampleDemux

/-- A bit of a number, counted from one end of `capacity` bits. -/
def numberBit (order : BitOrder) (capacity number position : ℕ) : Bool :=
  match order with
  | .msbFirst => number.testBit (capacity - 1 - position)
  | .lsbFirst => number.testBit position

section Bits

variable (order : BitOrder) {capacity number other start width : ℕ}

/-- The bits of a run, counted from the same end, are those of the number behind its start. -/
theorem numberBit_bitField {position : ℕ} (h : start + width ≤ capacity)
    (hposition : position < width) :
    numberBit order width (bitField order capacity number start width) position =
      numberBit order capacity number (start + position) := by
  cases order with
  | msbFirst =>
    have hplace : capacity - start - width + (width - 1 - position) =
        capacity - 1 - (start + position) := by omega
    simp only [numberBit, bitField, Nat.testBit_mod_two_pow, Nat.testBit_div_two_pow]
    rw [Nat.add_comm, hplace, decide_eq_true (by omega), Bool.true_and]
  | lsbFirst =>
    simp only [numberBit, bitField, Nat.testBit_mod_two_pow, Nat.testBit_div_two_pow]
    rw [Nat.add_comm, decide_eq_true hposition, Bool.true_and]

/-- Numbers of so many bits with the same bits are equal. -/
theorem eq_of_numberBit_eq (hnumber : number < 2 ^ width) (hother : other < 2 ^ width)
    (h : ∀ position < width,
      numberBit order width number position = numberBit order width other position) :
    number = other := by
  refine Nat.eq_of_testBit_eq fun place => ?_
  by_cases hplace : place < width
  · cases order with
    | msbFirst =>
      have hbit := h (width - 1 - place) (by omega)
      simp only [numberBit] at hbit
      rwa [show width - 1 - (width - 1 - place) = place by omega] at hbit
    | lsbFirst => exact h place hplace
  · have hpower : 2 ^ width ≤ 2 ^ place := Nat.pow_le_pow_right (by decide) (by omega)
    rw [Nat.testBit_lt_two_pow (hnumber.trans_le hpower),
      Nat.testBit_lt_two_pow (hother.trans_le hpower)]

/-- Runs of two numbers are equal if and only if all their bits are. -/
theorem bitField_eq_iff (h : start + width ≤ capacity) :
    bitField order capacity number start width = bitField order capacity other start width ↔
      ∀ position < width, numberBit order capacity number (start + position) =
        numberBit order capacity other (start + position) := by
  constructor
  · intro heq position hposition
    rw [← numberBit_bitField order h hposition, heq, numberBit_bitField order h hposition]
  · intro hbits
    refine eq_of_numberBit_eq order (bitField_lt ..) (bitField_lt ..) fun position hposition => ?_
    rw [numberBit_bitField order h hposition, numberBit_bitField order h hposition]
    exact hbits position hposition

end Bits

/-- Cuts of two numbers are equal if and only if the runs that they cover are. -/
theorem splitAll_eq_iff (order : BitOrder) {capacity number other start : ℕ} {widths : List ℕ}
    (h : start + widths.sum ≤ capacity) :
    splitAll order capacity number start widths = splitAll order capacity other start widths ↔
      bitField order capacity number start widths.sum =
        bitField order capacity other start widths.sum := by
  constructor
  · intro heq
    rw [← joinAll_splitAll order h, heq, joinAll_splitAll order h]
  · intro heq
    have hbits := (bitField_eq_iff order h).mp heq
    clear heq
    induction widths generalizing start with
    | nil => rfl
    | cons width widths ih =>
      rw [List.sum_cons] at h hbits
      have hfirst : bitField order capacity number start width =
          bitField order capacity other start width :=
        (bitField_eq_iff order (by omega)).mpr fun position hposition =>
          hbits position (by omega)
      have hrest : ∀ position < widths.sum,
          numberBit order capacity number (start + width + position) =
            numberBit order capacity other (start + width + position) := by
        intro position hposition
        rw [Nat.add_assoc]
        exact hbits (width + position) (by omega)
      rw [splitAll, splitAll, hfirst, ih (by omega) hrest]

/-- Values that fit into the fields of a unit, one for each. -/
def PlanUnit.Holds (unit : PlanUnit) (fields : List ℕ) : Prop :=
  List.Forall₂ (fun width value => value < 2 ^ width) unit.fieldWidths fields

/-- Unused bits give no value. -/
theorem PlanUnit.decode_of_isPadding (unit : PlanUnit) (h : unit.isPadding = true)
    (fields : List ℕ) : unit.decode fields = none := by
  rcases unit with ⟨bits, kind⟩
  cases kind with
  | padding => rfl
  | sample => cases h

/-- Values for units that are the same side by side and have the same number in each unit are the
same. -/
theorem eq_of_flatten_eq {units : List PlanUnit} {first second : List (List ℕ)}
    (hfirst : List.Forall₂ (fun unit fields => fields.length = unit.fieldWidths.length) units first)
    (hsecond :
      List.Forall₂ (fun unit fields => fields.length = unit.fieldWidths.length) units second)
    (h : first.flatten = second.flatten) : first = second := by
  induction hfirst generalizing second with
  | nil =>
    cases hsecond
    rfl
  | cons hfields _ ih =>
    cases hsecond with
    | cons hothers hrest =>
      rw [List.flatten_cons, List.flatten_cons] at h
      rcases List.append_inj h (hfields.trans hothers.symm) with ⟨rfl, htail⟩
      rw [ih hrest htail]

/-- The cut of units has the fields of each unit. -/
theorem holds_cutUnits (order : BitOrder) (capacity number start : ℕ) (units : List PlanUnit) :
    List.Forall₂ PlanUnit.Holds units (cutUnits order capacity number start units) := by
  induction units generalizing start with
  | nil => exact .nil
  | cons unit units ih =>
    refine .cons ?_ (ih _)
    refine List.forall₂_iff_zip.mpr ⟨(length_splitAll ..).symm, fun hfield => ?_⟩
    exact fieldsFit_splitAll order capacity number start _ _ hfield

/-- Values that fit into units fit into their fields side by side. -/
theorem forall₂_flatten_of_holds {units : List PlanUnit} {contents : List (List ℕ)}
    (h : List.Forall₂ PlanUnit.Holds units contents) :
    List.Forall₂ (fun width value => value < 2 ^ width) (units.flatMap (·.fieldWidths))
      contents.flatten := by
  induction h with
  | nil => exact .nil
  | cons hfields _ ih =>
    rw [List.flatMap_cons, List.flatten_cons]
    exact List.rel_append hfields ih

/-- Units that stand before others end where the others begin or earlier. -/
theorem unitBits_take_add_le {units : List PlanUnit} {index later : ℕ} {unit : PlanUnit}
    (hunit : units[index]? = some unit) (h : index < later) :
    unitBits (units.take index) + unit.bits ≤ unitBits (units.take later) := by
  rcases Nat.exists_eq_add_of_lt h with ⟨gap, rfl⟩
  rw [show index + gap + 1 = index + 1 + gap by omega, List.take_add, List.take_add_one, hunit]
  simp only [unitBits_append, Option.toList_some, unitBits_cons]
  omega

/-- Every bit of units side by side is in one of them. -/
theorem exists_unit_of_lt {units : List PlanUnit} {position : ℕ} (h : position < unitBits units) :
    ∃ (index : ℕ) (unit : PlanUnit), units[index]? = some unit ∧
      unitBits (units.take index) ≤ position ∧
      position < unitBits (units.take index) + unit.bits := by
  induction units generalizing position with
  | nil => exact absurd h (Nat.not_lt_zero _)
  | cons unit units ih =>
    rw [unitBits_cons] at h
    by_cases hfirst : position < unit.bits
    · exact ⟨0, unit, rfl, Nat.zero_le _, by simpa [unitBits] using hfirst⟩
    · have hrest : position - unit.bits < unitBits units := by omega
      rcases ih hrest with ⟨index, other, hother, hlow, hhigh⟩
      refine ⟨index + 1, other, hother, ?_, ?_⟩ <;>
        rw [List.take_succ_cons, unitBits_cons] <;> omega

namespace ChunkRunner

/-- The fields of the plan's units in the bytes of a chunk. -/
def fields (plan : ChunkPlan) (data : List UInt8) : Except BitError (List (List ℕ)) :=
  (readAllFields (bitReader plan data) plan.units).map (·.1)

end ChunkRunner

namespace ChunkPlan

/-- Values for all units of a plan: raw components of samples and values of unused bits. -/
def Fits (plan : ChunkPlan) (contents : List (List ℕ)) : Prop :=
  List.Forall₂ PlanUnit.Holds plan.units contents

/-- The bytes of a chunk whose units have given values: every value is put into the bits of its
field, and the words are stored in their byte order. -/
def encode (plan : ChunkPlan) (contents : List (List ℕ)) : List UInt8 :=
  plan.buffer (joinAll plan.shift.bitOrder
    ((plan.units.flatMap (·.fieldWidths)).zip contents.flatten))

/-- A bit of a buffer: words stand one after the other, and bits are taken from one end of each. -/
def bitAt (plan : ChunkPlan) (data : List UInt8) (position : ℕ) : Bool :=
  let word := plan.wordValue data (position / plan.wordBits)
  match plan.shift with
  | .left => word.testBit (plan.wordBits - 1 - position % plan.wordBits)
  | .right => word.testBit (position % plan.wordBits)

/-- A bit of a chunk is unused. -/
def PaddingBit (plan : ChunkPlan) (position : ℕ) : Prop :=
  ∃ (index : ℕ) (unit : PlanUnit), plan.units[index]? = some unit ∧ unit.isPadding = true ∧
    plan.startOf index ≤ position ∧ position < plan.startOf index + unit.bits

variable (plan : ChunkPlan) {data left right : List UInt8}

/-- The value of a word is a run of the number of all words. -/
theorem wordValue_eq_bitField (hdata : data.length = plan.sizeBytes) {index : ℕ}
    (hindex : index < plan.countWords) :
    plan.wordValue data index =
      bitField plan.shift.bitOrder plan.capacityBits (plan.number data) (index * plan.wordBits)
        plan.wordBits := by
  have hwords := plan.wordsOf_buffer (plan.number data)
  rw [plan.buffer_number hdata] at hwords
  have hword := congrArg (·[index]?) hwords
  simp only [wordsOf, List.getElem?_map, List.getElem?_range hindex, Option.map_some,
    Option.some.injEq] at hword
  rw [wordValue, hword]
  exact plan.endian.value_word (bitField_lt ..)

/-- The bits of a buffer are those of its number. -/
theorem bitAt_eq_numberBit (hdata : data.length = plan.sizeBytes) {position : ℕ}
    (h : position < plan.capacityBits) :
    plan.bitAt data position =
      numberBit plan.shift.bitOrder plan.capacityBits (plan.number data) position := by
  have hbits : 0 < plan.wordBits := Nat.mul_pos (by decide) plan.wordSize.bytes_pos
  have hcapacity := plan.capacityBits_eq
  have hword : position / plan.wordBits < plan.countWords := by
    rw [Nat.div_lt_iff_lt_mul hbits, ← hcapacity]
    exact h
  have hroom : position / plan.wordBits * plan.wordBits + plan.wordBits ≤ plan.capacityBits := by
    rw [hcapacity, ← Nat.succ_mul]
    exact Nat.mul_le_mul_right _ hword
  have hplace : numberBit plan.shift.bitOrder plan.wordBits
      (plan.wordValue data (position / plan.wordBits)) (position % plan.wordBits) =
        numberBit plan.shift.bitOrder plan.capacityBits (plan.number data) position := by
    rw [plan.wordValue_eq_bitField hdata hword,
      numberBit_bitField plan.shift.bitOrder hroom (Nat.mod_lt position hbits), Nat.div_add_mod']
  rw [← hplace]
  unfold bitAt numberBit
  cases plan.shift <;> rfl

variable {plan}

/-- Every bit of a unit that holds a sample is used. -/
theorem not_paddingBit {index position : ℕ} {unit : PlanUnit}
    (hunit : plan.units[index]? = some unit) (hsample : unit.isPadding = false)
    (hlow : plan.startOf index ≤ position) (hhigh : position < plan.startOf index + unit.bits) :
    ¬plan.PaddingBit position := by
  rintro ⟨place, other, hother, hpadding, hfirst, hlast⟩
  rcases lt_trichotomy index place with hbefore | rfl | hbehind
  · have hend : plan.startOf index + unit.bits ≤ plan.startOf place :=
      unitBits_take_add_le hunit hbefore
    omega
  · rw [hunit, Option.some_inj] at hother
    rw [hother, hpadding] at hsample
    cases hsample
  · have hend : plan.startOf place + other.bits ≤ plan.startOf index :=
      unitBits_take_add_le hother hbehind
    omega

/-- Values that fit have one number for each field. -/
theorem Fits.length_eq {contents : List (List ℕ)} (h : plan.Fits contents) :
    List.Forall₂ (fun (unit : PlanUnit) fields => fields.length = unit.fieldWidths.length)
      plan.units contents :=
  h.imp fun _ _ hfields => hfields.length_eq.symm

/-- The fields of a buffer fit. -/
theorem fits_contents (plan : ChunkPlan) (data : List UInt8) : plan.Fits (plan.contents data) :=
  holds_cutUnits ..

namespace BuiltFrom

variable {descriptor : Descriptor} {system : System} {chunk : ChunkDecl}
  {layouts : List LumpLayout}

/-- The fields of a built plan are all its bits. -/
theorem sum_fieldWidths (h : BuiltFrom descriptor system chunk plan layouts) :
    (plan.units.flatMap (·.fieldWidths)).sum = plan.capacityBits := by
  rw [SampleDemux.sum_fieldWidths h.wellFormed_units, h.unitBits_units]

/-- The fields of a built plan are read. -/
theorem fields_eq (h : BuiltFrom descriptor system chunk plan layouts)
    (hdata : data.length = plan.sizeBytes) :
    ChunkRunner.fields plan data = .ok (plan.contents data) := by
  rw [ChunkRunner.fields, h.readAllFields_eq hdata]
  rfl

/-- What is encoded is read back. -/
theorem contents_encode (h : BuiltFrom descriptor system chunk plan layouts)
    {contents : List (List ℕ)} (hfits : plan.Fits contents) :
    plan.contents (plan.encode contents) = contents := by
  rcases List.forall₂_iff_zip.mp (forall₂_flatten_of_holds hfits) with ⟨hlength, hvalues⟩
  have hwidths : ((plan.units.flatMap (·.fieldWidths)).zip contents.flatten).map Prod.fst =
      plan.units.flatMap (·.fieldWidths) := List.map_fst_zip hlength.le
  have hbits : fieldBits ((plan.units.flatMap (·.fieldWidths)).zip contents.flatten) =
      plan.capacityBits := by
    rw [fieldBits, hwidths, h.sum_fieldWidths]
  have hfit : FieldsFit ((plan.units.flatMap (·.fieldWidths)).zip contents.flatten) :=
    fun field hfield => hvalues hfield
  have hnumber := plan.number_buffer (hbits ▸ joinAll_lt plan.shift.bitOrder hfit)
  have hcut := splitAll_joinAll plan.shift.bitOrder hfit
  rw [hbits, hwidths, List.map_snd_zip hlength.ge] at hcut
  refine eq_of_flatten_eq (plan.fits_contents _).length_eq hfits.length_eq ?_
  rw [ChunkPlan.contents, encode, hnumber, flatten_cutUnits _ _ _ _ h.wellFormed_units, hcut]

/-- What is read is encoded back. -/
theorem encode_contents (h : BuiltFrom descriptor system chunk plan layouts)
    (hdata : data.length = plan.sizeBytes) : plan.encode (plan.contents data) = data := by
  have hsum := h.sum_fieldWidths
  rw [encode, ChunkPlan.contents, flatten_cutUnits _ _ _ _ h.wellFormed_units,
    joinAll_splitAll _ (by rw [Nat.zero_add, hsum]), hsum, bitField_whole _ (plan.number_lt hdata),
    plan.buffer_number hdata]

/-- A unit of a built plan ends inside the chunk. -/
theorem startOf_add_bits_le (h : BuiltFrom descriptor system chunk plan layouts) {index : ℕ}
    {unit : PlanUnit} (hunit : plan.units[index]? = some unit) :
    plan.startOf index + unit.bits ≤ plan.capacityBits := by
  have hindex : index < plan.units.length := (List.getElem?_eq_some_iff.mp hunit).1
  rw [← h.unitBits_units]
  have hend := unitBits_take_add_le hunit hindex
  rwa [List.take_length] at hend

/-- The fields of a unit are the same in two buffers if and only if its bits are. -/
theorem splitAll_eq_iff_bitAt_eq (h : BuiltFrom descriptor system chunk plan layouts)
    (hleft : left.length = plan.sizeBytes) (hright : right.length = plan.sizeBytes) {index : ℕ}
    {unit : PlanUnit} (hunit : plan.units[index]? = some unit) :
    splitAll plan.shift.bitOrder plan.capacityBits (plan.number left) (plan.startOf index)
        unit.fieldWidths =
      splitAll plan.shift.bitOrder plan.capacityBits (plan.number right) (plan.startOf index)
        unit.fieldWidths ↔
      ∀ position < unit.bits, plan.bitAt left (plan.startOf index + position) =
        plan.bitAt right (plan.startOf index + position) := by
  have hend := h.startOf_add_bits_le hunit
  have hwidths := (h.wellFormed_units unit (List.mem_of_getElem? hunit)).sum_fieldWidths
  rw [splitAll_eq_iff _ (by rwa [hwidths]), hwidths, bitField_eq_iff _ hend]
  refine forall₂_congr fun position hposition => ?_
  rw [plan.bitAt_eq_numberBit hleft (by omega), plan.bitAt_eq_numberBit hright (by omega)]

/-- Buffers that differ in unused bits only have the same values. -/
theorem decoded_eq_of_used_bits_eq (h : BuiltFrom descriptor system chunk plan layouts)
    (hleft : left.length = plan.sizeBytes) (hright : right.length = plan.sizeBytes)
    (hbits : ∀ position < plan.capacityBits,
      plan.bitAt left position ≠ plan.bitAt right position → plan.PaddingBit position) :
    List.zipWith PlanUnit.decode plan.units (plan.contents left) =
      List.zipWith PlanUnit.decode plan.units (plan.contents right) := by
  refine List.ext_getElem? fun index => ?_
  cases hunit : plan.units[index]? with
  | none => rw [List.getElem?_zipWith, List.getElem?_zipWith, hunit]
  | some unit =>
    rw [getElem?_decoded hunit, getElem?_decoded hunit]
    cases hpadding : unit.isPadding with
    | true => rw [unit.decode_of_isPadding hpadding, unit.decode_of_isPadding hpadding]
    | false =>
      have hend := h.startOf_add_bits_le hunit
      rw [(h.splitAll_eq_iff_bitAt_eq hleft hright hunit).mpr fun offset hoffset => ?_]
      by_contra hdiffers
      exact not_paddingBit hunit hpadding (Nat.le_add_right _ _) (by omega)
        (hbits _ (by omega) hdiffers)

/-- Buffers that differ in a used bit differ in a component of a sample. -/
theorem exists_component_ne (h : BuiltFrom descriptor system chunk plan layouts)
    (hleft : left.length = plan.sizeBytes) (hright : right.length = plan.sizeBytes) {position : ℕ}
    (hposition : position < plan.capacityBits) (hused : ¬plan.PaddingBit position)
    (hbit : plan.bitAt left position ≠ plan.bitAt right position) :
    ∃ (index component : ℕ) (unit : PlanUnit) (leftRaw rightRaw : ℕ),
      plan.units[index]? = some unit ∧ unit.isPadding = false ∧
      (plan.contents left)[index]?.bind (·[component]?) = some leftRaw ∧
      (plan.contents right)[index]?.bind (·[component]?) = some rightRaw ∧
      leftRaw ≠ rightRaw := by
  obtain ⟨index, unit, hunit, hlow, hhigh⟩ : ∃ (index : ℕ) (unit : PlanUnit),
      plan.units[index]? = some unit ∧ plan.startOf index ≤ position ∧
        position < plan.startOf index + unit.bits :=
    exists_unit_of_lt (by rwa [h.unitBits_units])
  have hsample : unit.isPadding = false := by
    by_contra hpadding
    exact hused ⟨index, unit, hunit, by simpa using hpadding, hlow, hhigh⟩
  have hdiffer := mt (h.splitAll_eq_iff_bitAt_eq hleft hright hunit).mp fun hsame => hbit <| by
    have hplace := hsame (position - plan.startOf index) (by omega)
    rwa [Nat.add_sub_cancel' hlow] at hplace
  obtain ⟨component, leftRaw, rightRaw, hleftRaw, hrightRaw, hne⟩ :=
    exists_getElem?_ne (by simp) hdiffer
  refine ⟨index, component, unit, leftRaw, rightRaw, hunit, hsample, ?_, ?_, hne⟩
  · rw [getElem?_contents, hunit]
    exact hleftRaw
  · rw [getElem?_contents, hunit]
    exact hrightRaw

end BuiltFrom

/-- The values of a plan are its fields decoded. -/
theorem values_eq_decode_fields (plan : ChunkPlan) (data : List UInt8) :
    ChunkRunner.values plan data =
      (ChunkRunner.fields plan data).map (List.zipWith PlanUnit.decode plan.units) := by
  rw [ChunkRunner.values, ChunkRunner.fields, ChunkRunner.extract_eq_decode]
  cases ChunkRunner.readAllFields (ChunkRunner.bitReader plan data) plan.units <;> rfl

variable {descriptor : Descriptor} {system : System} {chunk : ChunkDecl}

/-- Encoding and reading are inverse to each other. -/
structure EncodesAndReads (plan : ChunkPlan) : Prop where
  /-- Values that fit are read back from their buffer. -/
  encode : ∀ contents, plan.Fits contents →
    (plan.encode contents).length = plan.sizeBytes ∧
    ChunkRunner.fields plan (plan.encode contents) = .ok contents ∧
    ChunkRunner.values plan (plan.encode contents) =
      .ok (List.zipWith PlanUnit.decode plan.units contents)
  /-- The fields of a buffer are encoded to the same bytes. -/
  read : ∀ data : List UInt8, data.length = plan.sizeBytes →
    ∃ contents, ChunkRunner.fields plan data = .ok contents ∧ plan.Fits contents ∧
      plan.encode contents = data
  /-- So buffers that differ in unused bits only have the same values. -/
  unused : ∀ left right : List UInt8, left.length = plan.sizeBytes →
    right.length = plan.sizeBytes →
    (∀ position < plan.capacityBits,
      plan.bitAt left position ≠ plan.bitAt right position → plan.PaddingBit position) →
    ∃ values, ChunkRunner.values plan left = .ok values ∧
      ChunkRunner.values plan right = .ok values
  /-- Buffers that differ in another bit differ in a component of a sample. -/
  used : ∀ left right : List UInt8, left.length = plan.sizeBytes → right.length = plan.sizeBytes →
    ∀ position < plan.capacityBits, ¬plan.PaddingBit position →
      plan.bitAt left position ≠ plan.bitAt right position →
      ∃ leftContents rightContents,
        ChunkRunner.fields plan left = .ok leftContents ∧
        ChunkRunner.fields plan right = .ok rightContents ∧
        ∃ (index component : ℕ) (unit : PlanUnit) (leftRaw rightRaw : ℕ),
          plan.units[index]? = some unit ∧ unit.isPadding = false ∧
          leftContents[index]?.bind (·[component]?) = some leftRaw ∧
          rightContents[index]?.bind (·[component]?) = some rightRaw ∧
          leftRaw ≠ rightRaw

/-- Encoding and reading are inverse to each other for a built plan. -/
theorem build_encode_inverse (h : build descriptor system chunk = .ok plan) :
    plan.EncodesAndReads := by
  rcases build_ok h with ⟨layouts, hbuilt⟩
  constructor
  case encode =>
    intro contents hfits
    have hlength : (plan.encode contents).length = plan.sizeBytes := plan.length_buffer _
    have hfields := hbuilt.fields_eq hlength
    rw [hbuilt.contents_encode hfits] at hfields
    refine ⟨hlength, hfields, ?_⟩
    rw [values_eq_decode_fields, hfields]
    rfl
  case read =>
    exact fun data hdata => ⟨plan.contents data, hbuilt.fields_eq hdata, plan.fits_contents data,
      hbuilt.encode_contents hdata⟩
  case unused =>
    intro left right hleft hright hbits
    refine ⟨_, hbuilt.values_eq hleft, ?_⟩
    rw [hbuilt.values_eq hright, hbuilt.decoded_eq_of_used_bits_eq hleft hright hbits]
  case used =>
    exact fun left right hleft hright position hposition hused hbit =>
      ⟨_, _, hbuilt.fields_eq hleft, hbuilt.fields_eq hright,
        hbuilt.exists_component_ne hleft hright hposition hused hbit⟩

/-- The bytes of the chunk with every kind of unit are encoded from what is read from them. -/
theorem build_encode_inverse_of_packedChunk :
    ∃ plan contents, build packedDescriptor {} packedChunk = .ok plan ∧
      ChunkRunner.fields plan packedBytes = .ok contents ∧ plan.encode contents = packedBytes := by
  obtain ⟨plan, hplan, hsize⟩ : ∃ plan, build packedDescriptor {} packedChunk = .ok plan ∧
      packedBytes.length = plan.sizeBytes := ⟨_, rfl, rfl⟩
  rcases (build_encode_inverse hplan).read packedBytes hsize with ⟨contents, hfields, -, hencode⟩
  exact ⟨plan, contents, hplan, hfields, hencode⟩

end ChunkPlan

end SampleDemux
