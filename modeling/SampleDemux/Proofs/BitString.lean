import SampleDemux.Proofs.BitField
import Mathlib.Data.Nat.Digits.Lemmas

/-!
# The number behind a byte string

A byte string forms a number from either of its ends. The byte-wise reader gives runs of bits of
this number, whatever bytes a run begins and ends in, and it fails exactly when a run is too wide or
not there. Words and their byte orders come later.
-/

namespace SampleDemux

/-- The number of a byte string, least significant byte first. -/
def byteNumber (data : List UInt8) : ℕ := Nat.ofDigits 256 (data.map UInt8.toNat)

/-- Every byte is a digit. -/
theorem byte_lt_of_mem (data : List UInt8) : ∀ digit ∈ data.map UInt8.toNat, digit < 256 := by
  intro digit hdigit
  rcases List.mem_map.mp hdigit with ⟨byte, -, rfl⟩
  exact byte.toNat_lt

/-- The first byte is the least significant one. -/
theorem byteNumber_cons (byte : UInt8) (data : List UInt8) :
    byteNumber (byte :: data) = byte.toNat + 256 * byteNumber data := by
  simp only [byteNumber, List.map_cons, Nat.ofDigits_cons]

/-- Later bytes weigh more than all earlier ones. -/
theorem byteNumber_append (front back : List UInt8) :
    byteNumber (front ++ back) =
      byteNumber front + 2 ^ (8 * front.length) * byteNumber back := by
  simp only [byteNumber, List.map_append, Nat.ofDigits_append, List.length_map]
  rw [show (256 : ℕ) = 2 ^ 8 by rfl, ← pow_mul]

/-- A byte string of so many bytes has eight times as many bits. -/
theorem byteNumber_lt (data : List UInt8) : byteNumber data < 2 ^ (8 * data.length) := by
  have h := Nat.ofDigits_lt_base_pow_length (by decide : 1 < 256) (byte_lt_of_mem data)
  rwa [List.length_map, show (256 : ℕ) = 2 ^ 8 by rfl, ← pow_mul] at h

/-- Strings of one length with one number are equal. -/
theorem byteNumber_injective {left right : List UInt8} (hlength : left.length = right.length)
    (hnumber : byteNumber left = byteNumber right) : left = right := by
  have hmaps := Nat.ofDigits_inj_of_len_eq (by decide : 1 < 256)
    (by simpa only [List.length_map] using hlength) (byte_lt_of_mem left) (byte_lt_of_mem right)
    hnumber
  exact (List.map_inj_right fun _ _ h => UInt8.toNat_inj.mp h).mp hmaps

/-- A byte of a string is one digit of its number; past the end the digits are 0. -/
theorem byteNumber_digit (data : List UInt8) (index : ℕ) :
    byteNumber data / 2 ^ (8 * index) % 2 ^ 8 = (data[index]?.getD 0).toNat := by
  induction data generalizing index with
  | nil => simp [byteNumber]
  | cons byte data ih =>
    have hbyte : byte.toNat < 256 := byte.toNat_lt
    rw [byteNumber_cons]
    cases index with
    | zero =>
      simp only [Nat.mul_zero, pow_zero, Nat.div_one, List.getElem?_cons_zero, Option.getD_some]
      omega
    | succ index =>
      have hshift : 2 ^ (8 * (index + 1)) = 256 * 2 ^ (8 * index) := by
        rw [Nat.mul_succ, pow_add]; ring
      have htail : (byte.toNat + 256 * byteNumber data) / 256 = byteNumber data := by omega
      rw [hshift, ← Nat.div_div_eq_div_mul, htail, List.getElem?_cons_succ]
      exact ih index

namespace BitReader

/-- The number that a reader walks: its bytes from the end that the bit order says. -/
def number (order : BitOrder) (data : List UInt8) : ℕ :=
  match order with
  | .msbFirst => byteNumber data.reverse
  | .lsbFirst => byteNumber data

/-- The number of a string fits into its bits. -/
theorem number_lt (order : BitOrder) (data : List UInt8) :
    number order data < 2 ^ (8 * data.length) := by
  cases order with
  | msbFirst => simpa only [number, List.length_reverse] using byteNumber_lt data.reverse
  | lsbFirst => exact byteNumber_lt data

/-- The number of two strings side by side is joined from their numbers. -/
theorem number_append (order : BitOrder) (front back : List UInt8) :
    number order (front ++ back) =
      joinFields order (number order front) (number order back) (8 * front.length)
        (8 * back.length) := by
  cases order with
  | msbFirst =>
    simp only [number, joinFields, List.reverse_append, byteNumber_append, List.length_reverse]
    ring
  | lsbFirst =>
    simp only [number, joinFields, byteNumber_append]
    ring

/-- Strings of one length with one number are equal. -/
theorem number_injective (order : BitOrder) {left right : List UInt8}
    (hlength : left.length = right.length) (h : number order left = number order right) :
    left = right := by
  cases order with
  | msbFirst =>
    exact List.reverse_injective
      (byteNumber_injective (by simpa only [List.length_reverse] using hlength) h)
  | lsbFirst => exact byteNumber_injective hlength h

/-- A whole byte is the run of its eight bits. -/
theorem byteAt_eq_bitField (order : BitOrder) {data : Array UInt8} {index : ℕ}
    (h : index < data.size) :
    byteAt data index =
      bitField order (8 * data.size) (number order data.toList) (8 * index) 8 := by
  cases order with
  | msbFirst =>
    have hplace : 8 * data.size - 8 * index - 8 = 8 * (data.size - 1 - index) := by omega
    simp only [bitField, number, hplace]
    rw [byteNumber_digit, List.getElem?_reverse (by simp only [Array.length_toList]; omega)]
    have hmirror : data.toList.length - 1 - (data.size - 1 - index) = index := by
      simp only [Array.length_toList]; omega
    rw [hmirror, byteAt, Array.getElem?_toList]
  | lsbFirst =>
    simp only [bitField, number]
    rw [byteNumber_digit, byteAt, Array.getElem?_toList]

/-- A run inside one byte, taken by shifting the byte. -/
def shiftedByte (order : BitOrder) (byte phase width : ℕ) : ℕ :=
  match order with
  | .msbFirst => (byte >>> (8 - phase - width)) % 2 ^ width
  | .lsbFirst => (byte >>> phase) % 2 ^ width

/-- The bits of a byte from a phase on are a run of the string. -/
theorem shiftedByte_eq_bitField (order : BitOrder) {data : Array UInt8} {position width : ℕ}
    (hwidth : width ≤ 8 - position % 8) (h : position / 8 < data.size) :
    shiftedByte order (byteAt data (position / 8)) (position % 8) width =
      bitField order (8 * data.size) (number order data.toList) position width := by
  rw [byteAt_eq_bitField order h]
  generalize number order data.toList = value
  -- The byte is a quotient reduced below 2 ^ 8; shifting it within 8 bits keeps the run.
  have hposition : position = 8 * (position / 8) + position % 8 := (Nat.div_add_mod _ 8).symm
  have hcut (high low : ℕ) (hlow : low + width ≤ 8) :
      value / 2 ^ high % 2 ^ 8 / 2 ^ low % 2 ^ width = value / 2 ^ (high + low) % 2 ^ width := by
    rw [show (2 : ℕ) ^ 8 = 2 ^ low * 2 ^ (8 - low) by rw [← pow_add]; congr 1; omega,
      Nat.mod_mul_right_div_self, Nat.div_div_eq_div_mul, ← pow_add,
      Nat.mod_mod_of_dvd _ (pow_dvd_pow 2 (by omega : width ≤ 8 - low))]
  cases order with
  | msbFirst =>
    simp only [shiftedByte, bitField, Nat.shiftRight_eq_div_pow]
    rw [hcut _ _ (by omega)]
    congr 3
    omega
  | lsbFirst =>
    simp only [shiftedByte, bitField, Nat.shiftRight_eq_div_pow]
    rw [hcut _ _ (by omega), ← hposition]

/-- Bits taken byte by byte are a run of the string's number. -/
theorem bitsFrom_eq_bitField (order : BitOrder) (data : Array UInt8) (position count : ℕ)
    (h : position + count ≤ 8 * data.size) :
    bitsFrom order data position count =
      bitField order (8 * data.size) (number order data.toList) position count := by
  induction count using Nat.strong_induction_on generalizing position with
  | _ count ih =>
    rw [bitsFrom]
    by_cases hzero : count = 0
    · simp [hzero]
    -- The current byte gives the first part and the induction the rest.
    have hphase : position % 8 < 8 := Nat.mod_lt _ (by decide)
    generalize hw : min count (8 - position % 8) = width
    have hrest := ih (count - width) (by omega) (position + width) (by omega)
    have hbyte : shiftedByte order (byteAt data (position / 8)) (position % 8) width =
        bitField order (8 * data.size) (number order data.toList) position width :=
      shiftedByte_eq_bitField order (by omega) (by omega)
    have hjoin := @bitField_add order (8 * data.size) (number order data.toList) position width
      (count - width) (by omega)
    rw [show width + (count - width) = count by omega] at hjoin
    rw [if_neg hzero, hjoin, ← hrest, ← hbyte]
    cases order <;> simp only [hw, joinFields, shiftedByte, Nat.pow_eq]

/-- The run of bits of a reader's own string. -/
def field (reader : BitReader) (start width : ℕ) : ℕ :=
  bitField reader.order (8 * reader.data.size) (number reader.order reader.data.toList) start width

/-- The reader after so many further bits. -/
def advance (reader : BitReader) (count : ℕ) : BitReader :=
  { reader with position := reader.position + count }

/-- Advancing twice is advancing once by both counts. -/
@[simp]
theorem advance_advance (reader : BitReader) (first second : ℕ) :
    (reader.advance first).advance second = reader.advance (first + second) := by
  simp only [advance, Nat.add_assoc]

/-- A read of bits that are there gives their run and passes over them. -/
theorem get_eq_field (reader : BitReader) {count : ℕ} (hcount : count ≤ maxReadBits)
    (h : reader.position + count ≤ 8 * reader.data.size) :
    reader.get count = .ok (reader.field reader.position count, reader.advance count) := by
  have hthere : ¬reader.available < count := by simp only [available]; omega
  rw [get, if_neg (by omega), if_neg hthere, bitsFrom_eq_bitField _ _ _ _ h]
  rfl

/-- A skip of bits that are there passes over them. -/
theorem skip_eq_advance (reader : BitReader) {count : ℕ}
    (h : reader.position + count ≤ 8 * reader.data.size) :
    reader.skip count = .ok (reader.advance count) := by
  have hthere : ¬reader.available < count := by simp only [available]; omega
  rw [skip, if_neg hthere]
  rfl

end BitReader

end SampleDemux
