import SampleDemux.BitReader.Calls
import SampleDemux.Proofs.BitString

/-!
# Calls to a bit reader and the list of its bits

A byte string is also a list of bits: those of its first byte, from the end that the bit order says,
then those of the next one. Calls that succeed walk this list from its front. A read is the number
of the next bits, whatever bytes they lie in, and a skip leaves the next bits out. What a request
that fails does to the reader does not matter, since a skip makes no such request.
-/

namespace SampleDemux

/-- The bits of a byte in a bit order. -/
def byteBits (order : BitOrder) (byte : UInt8) : List Bool :=
  match order with
  | .msbFirst => ((List.range 8).map byte.toNat.testBit).reverse
  | .lsbFirst => (List.range 8).map byte.toNat.testBit

/-- The bits of a byte string in a bit order. -/
def stringBits (order : BitOrder) (data : List UInt8) : List Bool :=
  data.flatMap (byteBits order)

/-- The number that bits form: the first one is the most or the least significant bit. -/
def bitsNumber (order : BitOrder) (bits : List Bool) : ℕ :=
  match order with
  | .msbFirst => Nat.ofDigits 2 (bits.reverse.map Bool.toNat)
  | .lsbFirst => Nat.ofDigits 2 (bits.map Bool.toNat)

section Bits

variable (order : BitOrder)

/-- A byte has eight bits. -/
theorem length_byteBits (byte : UInt8) : (byteBits order byte).length = 8 := by
  cases order <;> simp [byteBits]

/-- A string has eight bits for each byte. -/
theorem length_stringBits (data : List UInt8) :
    (stringBits order data).length = 8 * data.length := by
  induction data with
  | nil => rfl
  | cons byte data ih =>
    rw [stringBits, List.flatMap_cons, List.length_append, length_byteBits, ← stringBits, ih,
      List.length_cons]
    omega

/-- Bits form a number below their power of two. -/
theorem bitsNumber_lt (bits : List Bool) : bitsNumber order bits < 2 ^ bits.length := by
  have hdigits (digits : List Bool) :
      Nat.ofDigits 2 (digits.map Bool.toNat) < 2 ^ digits.length := by
    have hdigit : ∀ digit ∈ digits.map Bool.toNat, digit < 2 := by
      intro digit hdigit
      obtain ⟨bit, -, rfl⟩ := List.mem_map.mp hdigit
      exact bit.toNat_lt
    simpa only [List.length_map] using Nat.ofDigits_lt_base_pow_length (by decide) hdigit
  cases order with
  | msbFirst => simpa only [bitsNumber, List.length_reverse] using hdigits bits.reverse
  | lsbFirst => exact hdigits bits

/-- The number of bits side by side is joined from their numbers. -/
theorem bitsNumber_append (front back : List Bool) :
    bitsNumber order (front ++ back) =
      joinFields order (bitsNumber order front) (bitsNumber order back) front.length
        back.length := by
  cases order with
  | msbFirst =>
    simp only [bitsNumber, joinFields, List.reverse_append, List.map_append, Nat.ofDigits_append,
      List.length_map, List.length_reverse]
    ring
  | lsbFirst =>
    simp only [bitsNumber, joinFields, List.map_append, Nat.ofDigits_append, List.length_map]
    ring

/-- The lower bits of a number form what is left of it. -/
theorem ofDigits_testBit (number count : ℕ) :
    Nat.ofDigits 2 (((List.range count).map number.testBit).map Bool.toNat) =
      number % 2 ^ count := by
  induction count with
  | zero => simp [Nat.mod_one]
  | succ count ih =>
    rw [List.range_succ, List.map_append, List.map_append, Nat.ofDigits_append, ih,
      Nat.mod_pow_succ, List.length_map, List.length_map, List.length_range, List.map_singleton,
      List.map_singleton, Nat.ofDigits_singleton, Nat.toNat_testBit]

/-- The bits of a byte form the byte. -/
theorem bitsNumber_byteBits (byte : UInt8) :
    bitsNumber order (byteBits order byte) = byte.toNat := by
  have hbyte : byte.toNat % 2 ^ 8 = byte.toNat := Nat.mod_eq_of_lt byte.toNat_lt
  cases order with
  | msbFirst =>
    rw [bitsNumber, byteBits, List.reverse_reverse, ofDigits_testBit, hbyte]
  | lsbFirst => rw [bitsNumber, byteBits, ofDigits_testBit, hbyte]

/-- The number that a reader walks is the number of the bits of its bytes. -/
theorem number_eq_bitsNumber (data : List UInt8) :
    BitReader.number order data = bitsNumber order (stringBits order data) := by
  induction data with
  | nil => cases order <;> rfl
  | cons byte data ih =>
    have hbyte : BitReader.number order [byte] = byte.toNat := by
      cases order <;> simp [BitReader.number, byteNumber]
    rw [stringBits, List.flatMap_cons, bitsNumber_append, ← stringBits, ← ih, bitsNumber_byteBits,
      length_byteBits, length_stringBits, ← hbyte, ← List.singleton_append,
      BitReader.number_append, List.length_singleton]

/-- Of the number of three lists of bits side by side, the run in the middle is the number of the
second list. -/
theorem bitField_bitsNumber_append (front run back : List Bool) :
    bitField order (front ++ (run ++ back)).length (bitsNumber order (front ++ (run ++ back)))
      front.length run.length = bitsNumber order run := by
  have hbehind : bitField order (front.length + (run ++ back).length)
      (joinFields order (bitsNumber order front) (bitsNumber order (run ++ back)) front.length
        (run ++ back).length) (front.length + 0) run.length =
      bitField order (run ++ back).length (bitsNumber order (run ++ back)) 0 run.length :=
    bitField_joinFields_second order (bitsNumber_lt order front)
      (by rw [List.length_append]; omega)
  rw [Nat.add_zero] at hbehind
  rw [List.length_append, bitsNumber_append order front, hbehind, bitsNumber_append,
    List.length_append]
  exact bitField_joinFields_first order (bitsNumber_lt order run) (bitsNumber_lt order back)

/-- A run of bits of a number is the number of some of its bits. -/
theorem bitField_bitsNumber {bits : List Bool} {start width : ℕ} (h : start + width ≤ bits.length) :
    bitField order bits.length (bitsNumber order bits) start width =
      bitsNumber order ((bits.drop start).take width) := by
  have hparts := bitField_bitsNumber_append order (bits.take start) ((bits.drop start).take width)
    ((bits.drop start).drop width)
  have hstart : (bits.take start).length = start := by
    rw [List.length_take]
    omega
  have hwidth : ((bits.drop start).take width).length = width := by
    rw [List.length_take, List.length_drop]
    omega
  rwa [List.take_append_drop, List.take_append_drop, hstart, hwidth] at hparts

end Bits

/-- The answer to a call that is answered from a list of bits. -/
def BitCall.answerFrom (order : BitOrder) (bits : List Bool) : BitCall → Option ℕ
  | get count => some (bitsNumber order (bits.take count))
  | skip _ => none

/-- The answers to calls that are answered from a list of bits, each from where the one before it
ends. -/
def answersFrom (order : BitOrder) : List Bool → List BitCall → List (Option ℕ)
  | _, [] => []
  | bits, call :: calls =>
    call.answerFrom order bits :: answersFrom order (bits.drop call.width) calls

namespace BitReader

/-- The bits of a reader that it has not passed. -/
def bitsLeft (reader : BitReader) : List Bool :=
  (stringBits reader.order reader.data.toList).drop reader.position

/-- A reader stands in its string, or at its end. -/
def InBounds (reader : BitReader) : Prop := reader.position ≤ 8 * reader.data.size

section Bounds

variable {reader : BitReader} {count : ℕ}

/-- The bits that are available are those that are left. -/
theorem length_bitsLeft (reader : BitReader) : reader.bitsLeft.length = reader.available := by
  rw [bitsLeft, List.length_drop, length_stringBits, available, Array.length_toList]

/-- Behind further bits, the bits that are left are those behind them. -/
theorem bitsLeft_advance (reader : BitReader) (count : ℕ) :
    (reader.advance count).bitsLeft = reader.bitsLeft.drop count := by
  rw [bitsLeft, bitsLeft, List.drop_drop]
  rfl

/-- Behind further bits, so many fewer are available. -/
theorem available_advance (reader : BitReader) (count : ℕ) :
    (reader.advance count).available = reader.available - count := Nat.sub_add_eq ..

/-- A reader that passes available bits stays in its string. -/
theorem InBounds.advance (h : reader.InBounds) (hcount : count ≤ reader.available) :
    (reader.advance count).InBounds := by
  simp only [InBounds, available] at h hcount
  simp only [InBounds, BitReader.advance]
  omega

/-- A read of available bits is the number of the next bits that are left. -/
theorem get_eq_bitsNumber (h : reader.InBounds) (hwidth : count ≤ maxReadBits)
    (hcount : count ≤ reader.available) :
    reader.get count =
      .ok (bitsNumber reader.order (reader.bitsLeft.take count), reader.advance count) := by
  have hthere : reader.position + count ≤ 8 * reader.data.size := by
    simp only [InBounds, available] at h hcount
    omega
  have hlength : (stringBits reader.order reader.data.toList).length = 8 * reader.data.size := by
    rw [length_stringBits, Array.length_toList]
  rw [get_eq_field reader hwidth hthere, field, number_eq_bitsNumber, ← hlength,
    bitField_bitsNumber reader.order (by rw [hlength]; exact hthere), bitsLeft]

/-- A read succeeds only if it is not too wide and the bits are available. -/
theorem le_of_get {result : ℕ × BitReader} (h : reader.get count = .ok result) :
    count ≤ maxReadBits ∧ count ≤ reader.available := by
  unfold get at h
  split at h
  · cases h
  split at h
  · cases h
  · omega

/-- A skip succeeds only if the bits are available, and passes over them. -/
theorem le_of_skip {behind : BitReader} (h : reader.skip count = .ok behind) :
    count ≤ reader.available ∧ behind = reader.advance count := by
  unfold skip at h
  split at h
  · cases h
  · cases h
    exact ⟨by omega, rfl⟩

end Bounds

section Calls

variable {leftAt : BitReader → ℕ → ℕ} {reader : BitReader} {count : ℕ}

/-- A read is answered with what it gives, and only then. -/
theorem answerGet_eq_ok_iff {value : ℕ} {behind : BitReader} :
    reader.answerGet leftAt count = (.ok value, behind) ↔
      reader.get count = .ok (value, behind) := by
  constructor
  · intro h
    unfold answerGet at h
    split at h
    · rename_i found after hget
      rw [hget]
      cases h
      rfl
    · cases h
    · cases h
  · intro h
    rw [answerGet, h]

/-- Available bits are passed over, by however many requests. -/
theorem passOverAll_eq (hcount : count ≤ reader.available) :
    reader.passOverAll leftAt count = (.ok (), reader.advance count) := by
  induction count using Nat.strong_induction_on generalizing reader with
  | _ count ih =>
    unfold passOverAll
    by_cases hzero : count = 0
    · rw [if_pos hzero, hzero]
      rfl
    have hmost : 0 < maxPassedBits := by decide
    generalize hpiece : min count maxPassedBits = piece
    have hthere : ¬reader.available < piece := by omega
    have hpass : reader.passOver leftAt piece = (.ok (), reader.advance piece) := if_neg hthere
    have hbehind : count - piece ≤ (reader.advance piece).available := by
      rw [available_advance]
      omega
    have hrest := ih (count - piece) (by omega) hbehind
    rw [if_neg hzero, hpass]
    dsimp only
    rw [hrest, advance_advance, Nat.add_sub_cancel' (by omega)]

/-- A skip over available bits passes over them. -/
theorem answerSkip_eq (hcount : count ≤ reader.available) :
    reader.answerSkip leftAt count = (.ok (), reader.advance count) := by
  rw [answerSkip, if_neg (by omega), passOverAll_eq hcount]

/-- A skip over more bits says so and moves nothing, for it makes no request. -/
theorem answerSkip_of_lt (hcount : reader.available < count) :
    reader.answerSkip leftAt count = (.error (.skipPastEnd count reader.position), reader) := by
  rw [answerSkip, if_pos hcount]

/-- A skip is answered with what it gives, and only then. -/
theorem answerSkip_eq_ok_iff {behind : BitReader} :
    reader.answerSkip leftAt count = (.ok (), behind) ↔ reader.skip count = .ok behind := by
  rcases Nat.lt_or_ge reader.available count with hlt | hcount
  · rw [answerSkip_of_lt hlt, skip, if_pos hlt]
    constructor <;> intro h <;> cases h
  · have hskip : reader.skip count = .ok (reader.advance count) := if_neg (by omega)
    rw [answerSkip_eq hcount, hskip, Except.ok.injEq, Prod.mk.injEq]
    exact and_iff_right rfl

/-- A call that succeeds is answered from the bits that are left, and passes over its own. -/
theorem of_answer (hbounds : reader.InBounds) {call : BitCall} {value : Option ℕ}
    {behind : BitReader} (h : reader.answer leftAt call = (.ok value, behind)) :
    call.width ≤ reader.available ∧ behind = reader.advance call.width ∧
      value = call.answerFrom reader.order reader.bitsLeft := by
  cases call with
  | get count =>
    unfold answer at h
    dsimp only at h
    cases hanswer : reader.answerGet leftAt count with
    | mk outcome after =>
      rw [hanswer] at h
      cases outcome with
      | error error => cases h
      | ok number =>
        have hget := answerGet_eq_ok_iff.mp hanswer
        obtain ⟨hwidth, hcount⟩ := le_of_get hget
        rw [get_eq_bitsNumber hbounds hwidth hcount] at hget
        cases hget
        cases h
        exact ⟨hcount, rfl, rfl⟩
  | skip count =>
    unfold answer at h
    dsimp only at h
    cases hanswer : reader.answerSkip leftAt count with
    | mk outcome after =>
      rw [hanswer] at h
      cases outcome with
      | error error => cases h
      | ok done =>
        obtain ⟨hcount, hafter⟩ := le_of_skip (answerSkip_eq_ok_iff.mp hanswer)
        cases h
        exact ⟨hcount, hafter, rfl⟩

/-- Calls that succeed are answered from the bits that are left, and pass over their own. -/
theorem of_answerAll (hbounds : reader.InBounds) {calls : List BitCall}
    {values : List (Option ℕ)} {behind : BitReader}
    (h : reader.answerAll leftAt calls = (.ok values, behind)) :
    (calls.map (·.width)).sum ≤ reader.available ∧
      behind = reader.advance (calls.map (·.width)).sum ∧
      values = answersFrom reader.order reader.bitsLeft calls := by
  induction calls generalizing reader values with
  | nil =>
    cases h
    exact ⟨Nat.zero_le _, rfl, rfl⟩
  | cons call calls ih =>
    unfold answerAll at h
    cases hfirst : reader.answer leftAt call with
    | mk outcome after =>
      rw [hfirst] at h
      cases outcome with
      | error error => cases h
      | ok value =>
        obtain ⟨hwidth, rfl, hvalue⟩ := of_answer hbounds hfirst
        dsimp only at h
        cases hothers : (reader.advance call.width).answerAll leftAt calls with
        | mk rest last =>
          rw [hothers] at h
          cases rest with
          | error error => cases h
          | ok others =>
            cases h
            obtain ⟨hsum, hlast, hvalues⟩ := ih (hbounds.advance hwidth) hothers
            rw [available_advance] at hsum
            rw [bitsLeft_advance] at hvalues
            rw [advance_advance] at hlast
            simp only [List.map_cons, List.sum_cons, answersFrom]
            exact ⟨by omega, hlast, by rw [hvalue, hvalues]; rfl⟩

/-- Reads of available bits succeed and pass over them. -/
theorem exists_answerAll_gets (hbounds : reader.InBounds) {counts : List ℕ}
    (hwidths : ∀ count ∈ counts, count ≤ maxReadBits) (hsum : counts.sum ≤ reader.available) :
    ∃ values, reader.answerAll leftAt (counts.map .get) =
      (.ok values, reader.advance counts.sum) := by
  induction counts generalizing reader with
  | nil => exact ⟨[], rfl⟩
  | cons count counts ih =>
    rw [List.sum_cons] at hsum
    obtain ⟨hwidth, hothers⟩ := List.forall_mem_cons.mp hwidths
    have hcount : count ≤ reader.available := by omega
    have hget : reader.answerGet leftAt count =
        (.ok (bitsNumber reader.order (reader.bitsLeft.take count)), reader.advance count) :=
      answerGet_eq_ok_iff.mpr (get_eq_bitsNumber hbounds hwidth hcount)
    have hrest : counts.sum ≤ (reader.advance count).available := by
      rw [available_advance]
      omega
    obtain ⟨values, hvalues⟩ := ih (hbounds.advance hcount) hothers hrest
    rw [advance_advance] at hvalues
    refine ⟨some (bitsNumber reader.order (reader.bitsLeft.take count)) :: values, ?_⟩
    simp only [List.map_cons, answerAll, answer, hget, hvalues, List.sum_cons, Except.map]

end Calls

/-- What a reader answers that has so many bits left. -/
structure Walks (leftAt : BitReader → ℕ → ℕ) (order : BitOrder) (bits : List Bool)
    (reader : BitReader) : Prop where
  /-- A read of up to 64 available bits is the number of the next bits, and passes over them. -/
  get_eq : ∀ count ≤ 64, count ≤ reader.available →
    reader.answerGet leftAt count =
      (.ok (bitsNumber order (bits.take count)), reader.advance count)
  /-- A read of 1 to 64 bits fails if and only if fewer are available. -/
  get_fails_iff : ∀ count, 1 ≤ count → count ≤ 64 →
    ((∃ error, (reader.answerGet leftAt count).1 = .error error) ↔ reader.available < count)
  /-- A read is joined from two reads, the first of which takes the upper bits if the most
  significant bit of a byte comes first, and else the lower ones. -/
  get_add : ∀ first second, first + second ≤ 64 → first + second ≤ reader.available →
    ∃ x y, reader.answerGet leftAt first = (.ok x, reader.advance first) ∧
      (reader.advance first).answerGet leftAt second =
        (.ok y, reader.advance (first + second)) ∧
      reader.answerGet leftAt (first + second) =
        (.ok (joinFields order x y first second), reader.advance (first + second))
  /-- A skip fails if and only if fewer bits are available. -/
  skip_fails_iff : ∀ count,
    ((∃ error, (reader.answerSkip leftAt count).1 = .error error) ↔ reader.available < count)
  /-- A skip that fails moves nothing. -/
  skip_fails : ∀ count, reader.available < count → (reader.answerSkip leftAt count).2 = reader
  /-- A skip leaves the reader where reads of as many bits leave it. -/
  skip_eq_gets : ∀ counts : List ℕ, (∀ count ∈ counts, count ≤ 64) →
    counts.sum ≤ reader.available →
      ∃ values, reader.answerAll leftAt (counts.map .get) =
          (.ok values, reader.advance counts.sum) ∧
        reader.answerSkip leftAt counts.sum = (.ok (), reader.advance counts.sum)

/-- A reader walks the bits that it has left. -/
theorem InBounds.walks {reader : BitReader} (h : reader.InBounds)
    (leftAt : BitReader → ℕ → ℕ) : reader.Walks leftAt reader.order reader.bitsLeft := by
  have hget {reader : BitReader} (h : reader.InBounds) (count : ℕ) (hwidth : count ≤ 64)
      (hcount : count ≤ reader.available) : reader.answerGet leftAt count =
        (.ok (bitsNumber reader.order (reader.bitsLeft.take count)), reader.advance count) :=
    answerGet_eq_ok_iff.mpr (get_eq_bitsNumber h hwidth hcount)
  refine ⟨hget h, fun count _ hwidth => ?_, fun first second hwidth hcount => ?_, fun count => ?_,
    fun count hcount => ?_, fun counts hwidths hsum => ?_⟩
  · constructor
    · rintro ⟨error, herror⟩
      by_contra hcount
      rw [hget h count hwidth (by omega)] at herror
      cases herror
    · intro hcount
      cases hanswer : reader.answerGet leftAt count with
      | mk outcome behind =>
        cases outcome with
        | error error => exact ⟨error, rfl⟩
        | ok value =>
          have hthere := (le_of_get (answerGet_eq_ok_iff.mp hanswer)).2
          omega
  · have hadvance := h.advance (by omega : first ≤ reader.available)
    have hbehind : second ≤ (reader.advance first).available := by
      rw [available_advance]
      omega
    have hsecond := hget hadvance second (by omega) hbehind
    rw [bitsLeft_advance, advance_advance] at hsecond
    refine ⟨_, _, hget h first (by omega) (by omega), hsecond, ?_⟩
    have hfirstLength : (reader.bitsLeft.take first).length = first := by
      rw [List.length_take, length_bitsLeft]
      omega
    have hsecondLength : ((reader.bitsLeft.drop first).take second).length = second := by
      rw [List.length_take, List.length_drop, length_bitsLeft]
      omega
    have hjoin := bitsNumber_append reader.order (reader.bitsLeft.take first)
      ((reader.bitsLeft.drop first).take second)
    rw [← List.take_add, hfirstLength, hsecondLength] at hjoin
    rw [hget h _ hwidth hcount, hjoin]
    rfl
  · constructor
    · rintro ⟨error, herror⟩
      by_contra hcount
      rw [answerSkip_eq (by omega)] at herror
      cases herror
    · intro hcount
      rw [answerSkip_of_lt hcount]
      exact ⟨_, rfl⟩
  · rw [answerSkip_of_lt hcount]
  · obtain ⟨values, hvalues⟩ := exists_answerAll_gets h hwidths hsum
    exact ⟨values, hvalues, answerSkip_eq hsum⟩

/-- After calls that succeed, a reader stands behind all bits that they were about, and the bits
behind it are available. The calls were answered from the list of the string's bits, and so are
further calls from the bits that are left. -/
theorem answerAll_walks_bits (leftAt : BitReader → ℕ → ℕ) (order : BitOrder) (data : Array UInt8)
    {calls : List BitCall} {values : List (Option ℕ)} {reader : BitReader}
    (h : answerAll leftAt { order, data } calls = (.ok values, reader)) :
    reader.position = (calls.map (·.width)).sum ∧
    reader.position + reader.available = 8 * data.size ∧
    values = answersFrom order (stringBits order data.toList) calls ∧
    reader.Walks leftAt order ((stringBits order data.toList).drop reader.position) := by
  have hstart : InBounds { order, data } := Nat.zero_le _
  obtain ⟨hsum, rfl, hvalues⟩ := of_answerAll hstart h
  have hbounds := hstart.advance hsum
  have hposition : (advance { order, data } (calls.map (·.width)).sum).position =
      (calls.map (·.width)).sum := Nat.zero_add _
  have hsize : (calls.map (·.width)).sum ≤ 8 * data.size := hsum
  refine ⟨hposition, ?_, hvalues, hbounds.walks leftAt⟩
  rw [available_advance, hposition]
  exact Nat.add_sub_cancel' hsize

/-- A request for bits that are not there takes all that are; one for too many bits takes none. -/
def takesTheRest (reader : BitReader) (count : ℕ) : ℕ :=
  if maxReadBits < count then reader.position else 8 * reader.data.size

/-- Four bits and eight bits of two bytes are read and two bits passed over. Behind that two bits
are left, which are both ones, and a skip over three leaves the reader there. -/
theorem answerAll_walks_bits_of_twoBytes :
    ∃ reader, answerAll takesTheRest ⟨.msbFirst, #[0xac, 0x53], 0⟩ [.get 4, .get 8, .skip 2] =
        (.ok [some 0xa, some 0xc5, none], reader) ∧
      reader.position = 14 ∧ reader.available = 2 ∧
      reader.answerGet takesTheRest 2 = (.ok 3, reader.advance 2) ∧
      (reader.answerSkip takesTheRest 3).2 = reader := by
  have hanswers : answerAll takesTheRest ⟨.msbFirst, #[0xac, 0x53], 0⟩
      [.get 4, .get 8, .skip 2] =
        (.ok [some 0xa, some 0xc5, none], ⟨.msbFirst, #[0xac, 0x53], 14⟩) := by
    with_unfolding_all rfl
  obtain ⟨hposition, -, -, hwalks⟩ := answerAll_walks_bits _ _ _ hanswers
  exact ⟨_, hanswers, hposition, rfl, hwalks.get_eq 2 (by decide) (by decide),
    hwalks.skip_fails 3 (by decide)⟩

end BitReader

end SampleDemux
