import SampleDemux.Decoder
import Mathlib.Algebra.Group.Int.Even
import Mathlib.Algebra.Order.Group.Abs
import Mathlib.Algebra.Order.Group.Int
import Mathlib.Data.Int.ConditionallyCompleteOrder
import Mathlib.Data.Nat.Bitwise
import Mathlib.Data.Set.Card
import Mathlib.Data.Set.Function
import Mathlib.Order.Interval.Set.Basic
import Mathlib.Tactic.Ring

/-!
# Integers of the codes

What each integer code makes of the raw components of a width. Offset binary, two's complement and
offset Gray number a whole range of integers, the codes with a sign bit lose one value to their
second zero, and the adjusted forms of all of them number the odd integers. The Gray decoding is a
loop over doubling shifts: every step doubles the distance up to which the code's own step is
undone.
-/

namespace SampleDemux

/-! ### The loop over doubling shifts -/

/-- A number combined with itself moved down by a shift, as each step of `grayToBinary` does. -/
def xorShift (number shift : Nat) : Nat := number ^^^ (number >>> shift)

/-- The decoding takes a step for each power of two that is less than 64. -/
theorem grayToBinary_eq_foldl (gray : Nat) :
    grayToBinary gray = ((List.range 6).map (2 ^ ·)).foldl xorShift gray := rfl

/-- Two steps of one shift are one step of twice the shift. -/
theorem xorShift_xorShift_self (number shift : Nat) :
    xorShift (xorShift number shift) shift = xorShift number (2 * shift) := by
  have hmoved : (number >>> shift) >>> shift = number >>> (2 * shift) := by
    rw [← Nat.shiftRight_add, Nat.two_mul]
  simp only [xorShift]
  rw [Nat.shiftRight_xor_distrib, hmoved, Nat.xor_assoc, Nat.xor_xor_cancel_left]

/-- Steps can be taken in either order. -/
theorem xorShift_comm (number first second : Nat) :
    xorShift (xorShift number first) second = xorShift (xorShift number second) first := by
  have hmoved : (number >>> first) >>> second = (number >>> second) >>> first := by
    rw [← Nat.shiftRight_add, ← Nat.shiftRight_add, Nat.add_comm]
  simp only [xorShift]
  rw [Nat.shiftRight_xor_distrib, Nat.shiftRight_xor_distrib, hmoved]
  ac_rfl

/-- A step gives no bit above those of the number. -/
theorem xorShift_lt {number width : Nat} (hnumber : number < 2 ^ width) (shift : Nat) :
    xorShift number shift < 2 ^ width :=
  Nat.xor_lt_two_pow hnumber (Nat.lt_of_le_of_lt (Nat.shiftRight_le number shift) hnumber)

/-- A shift past every bit leaves the number as it is. -/
theorem xorShift_of_lt {number shift : Nat} (hnumber : number < 2 ^ shift) :
    xorShift number shift = number := by
  rw [xorShift, Nat.shiftRight_eq_zero number shift hnumber, Nat.xor_zero]

/-- After the shifts `1, 2, …, 2 ^ (rounds - 1)` the step of shift 1 has become a step of shift
`2 ^ rounds`. -/
theorem foldl_xorShift_xorShift_one (number rounds : Nat) :
    ((List.range rounds).map (2 ^ ·)).foldl xorShift (xorShift number 1) =
      xorShift number (2 ^ rounds) := by
  induction rounds with
  | zero => rfl
  | succ rounds ih =>
    rw [List.range_succ, List.map_append, List.foldl_append, ih]
    calc xorShift (xorShift number (2 ^ rounds)) (2 ^ rounds)
        = xorShift number (2 * 2 ^ rounds) := xorShift_xorShift_self number (2 ^ rounds)
      _ = xorShift number (2 ^ (rounds + 1)) := by rw [Nat.pow_succ, Nat.mul_comm]

/-- A step after any others may as well be taken before them. -/
theorem xorShift_foldl_xorShift (shifts : List Nat) (number shift : Nat) :
    xorShift (shifts.foldl xorShift number) shift =
      shifts.foldl xorShift (xorShift number shift) := by
  induction shifts generalizing number with
  | nil => rfl
  | cons first shifts ih =>
    simp only [List.foldl_cons]
    rw [ih, xorShift_comm]

/-- Steps give no bit above those of the number. -/
theorem foldl_xorShift_lt {number width : Nat} (hnumber : number < 2 ^ width) (shifts : List Nat) :
    shifts.foldl xorShift number < 2 ^ width := by
  induction shifts generalizing number with
  | nil => exact hnumber
  | cons first shifts ih => exact ih (xorShift_lt hnumber first)

/-- A number is read back from its reflected Gray code. -/
theorem grayToBinary_xorShift_one {number : Nat} (hnumber : number < 2 ^ 64) :
    grayToBinary (xorShift number 1) = number := by
  rw [grayToBinary_eq_foldl, foldl_xorShift_xorShift_one]
  exact xorShift_of_lt hnumber

/-- A code is the reflected Gray code of the number read from it. -/
theorem xorShift_one_grayToBinary {gray : Nat} (hgray : gray < 2 ^ 64) :
    xorShift (grayToBinary gray) 1 = gray := by
  rw [grayToBinary_eq_foldl, xorShift_foldl_xorShift, foldl_xorShift_xorShift_one]
  exact xorShift_of_lt hgray

/-- The Gray codes of a width are decoded to the numbers of that width, each once. -/
theorem bijOn_grayToBinary {width : Nat} (hle : width ≤ 64) :
    Set.BijOn grayToBinary (Set.Iio (2 ^ width)) (Set.Iio (2 ^ width)) := by
  have hsmall : ∀ number ∈ Set.Iio (2 ^ width), number < 2 ^ 64 := fun number hnumber =>
    Nat.lt_of_lt_of_le hnumber (Nat.pow_le_pow_right (by decide) hle)
  have hinverse : Set.InvOn (xorShift · 1) grayToBinary (Set.Iio (2 ^ width))
      (Set.Iio (2 ^ width)) :=
    ⟨fun gray hgray => xorShift_one_grayToBinary (hsmall gray hgray),
      fun number hnumber => grayToBinary_xorShift_one (hsmall number hnumber)⟩
  exact hinverse.bijOn (fun gray hgray => foldl_xorShift_lt hgray _)
    (fun number hnumber => xorShift_lt hnumber 1)

/-! ### Halves of the range -/

/-- The numbers of a width are two halves. -/
theorem two_pow_eq_two_mul {width : Nat} (hpos : 1 ≤ width) :
    2 ^ width = 2 * 2 ^ (width - 1) := by
  obtain ⟨lower, rfl⟩ := Nat.exists_eq_add_of_le' hpos
  rw [Nat.add_sub_cancel, Nat.pow_succ, Nat.mul_comm]

/-- The half in which a number lies: 0 for the lower one, 1 for the upper one. -/
theorem div_half_eq {raw half : Nat} (hraw : raw < 2 * half) :
    raw / half = if raw < half then 0 else 1 := by
  split
  next hlower => exact Nat.div_eq_of_lt hlower
  next hupper => exact Nat.div_eq_of_lt_le (by omega) (by omega)

/-- Changing the top bit goes over to the other half. -/
theorem xor_two_pow_half {place raw : Nat} (hraw : raw < 2 * 2 ^ place) :
    raw ^^^ 2 ^ place = if raw < 2 ^ place then raw + 2 ^ place else raw - 2 ^ place := by
  have hbits := Nat.div_add_mod raw (2 ^ place)
  have hchanged := Nat.div_add_mod (raw ^^^ 2 ^ place) (2 ^ place)
  rw [Nat.xor_div_two_pow, Nat.xor_mod_two_pow, Nat.div_self (Nat.two_pow_pos place), Nat.mod_self,
    Nat.xor_zero] at hchanged
  rw [div_half_eq hraw] at hbits hchanged
  split at hbits
  next hlower =>
    have hbit : 0 ^^^ 1 = 1 := rfl
    rw [if_pos hlower, hbit] at hchanged
    rw [if_pos hlower]
    omega
  next hupper =>
    rw [if_neg hupper, Nat.xor_self] at hchanged
    rw [if_neg hupper]
    omega

/-- The reading in two's complement takes the whole range off the upper half. -/
theorem bmod_two_mul {half raw : Nat} (hraw : raw < 2 * half) :
    Int.bmod raw (2 * half) = if raw < half then (raw : Int) else raw - 2 * half := by
  have hmod : (raw : Int) % ((2 * half : Nat) : Int) = raw :=
    Int.emod_eq_of_lt (by omega) (by omega)
  rw [Int.bmod_def, hmod]
  split <;> split <;> omega

/-- In a word of 128 bits the same reading is made by shifts: the component goes to the top and,
bringing copies of its sign, back. -/
theorem toInt_sshiftRight_shiftLeft {width raw : Nat} (hpos : 1 ≤ width) (hle : width ≤ 128)
    (hraw : raw < 2 ^ width) :
    ((BitVec.ofNat 128 raw <<< (128 - width)).sshiftRight (128 - width)).toInt =
      Int.bmod raw (2 ^ width) := by
  have hhalves := two_pow_eq_two_mul hpos
  have hscale : 0 < 2 ^ (128 - width) := Nat.two_pow_pos _
  have hword : 2 ^ 128 = 2 * (2 ^ (width - 1) * 2 ^ (128 - width)) := by
    rw [← Nat.mul_assoc, ← hhalves, ← Nat.pow_add, Nat.add_sub_cancel' hle]
  have hfits : raw < 2 ^ 128 := Nat.lt_of_lt_of_le hraw (Nat.pow_le_pow_right (by decide) hle)
  rw [hhalves] at hraw ⊢
  have htop : raw * 2 ^ (128 - width) < 2 * (2 ^ (width - 1) * 2 ^ (128 - width)) := by
    rw [← Nat.mul_assoc]
    exact Nat.mul_lt_mul_of_pos_right hraw hscale
  have hmoved : Int.bmod (raw * 2 ^ (128 - width) : Nat) (2 ^ 128) =
      Int.bmod raw (2 * 2 ^ (width - 1)) * (2 ^ (128 - width) : Nat) := by
    rw [hword, bmod_two_mul htop, bmod_two_mul hraw]
    simp only [Nat.mul_lt_mul_right hscale]
    split <;> push_cast <;> ring
  rw [BitVec.toInt_sshiftRight, BitVec.toInt_shiftLeft, BitVec.toNat_ofNat, Nat.mod_eq_of_lt hfits,
    Nat.shiftLeft_eq, hmoved, Int.shiftRight_eq_div_pow]
  exact Int.mul_ediv_cancel _ (by omega)

/-! ### Signs and magnitudes -/

namespace SignedMagnitude

/-- The magnitudes below a bound with either sign, so that there are two zeros. -/
def below (bound : Nat) : Set SignedMagnitude := {value | value.magnitude < bound}

/-- Only the magnitude counts. -/
@[simp]
theorem mem_below {value : SignedMagnitude} {bound : Nat} :
    value ∈ below bound ↔ value.magnitude < bound := Iff.rfl

/-- The odd magnitude that stands for a magnitude, with the same sign. -/
def adjust (value : SignedMagnitude) : SignedMagnitude :=
  ⟨value.negative, 2 * value.magnitude + 1⟩

/-- Both zeros, and nothing else, are the integer 0. -/
theorem toInt_eq_zero_iff (value : SignedMagnitude) : value.toInt = 0 ↔ value.magnitude = 0 := by
  rw [toInt]
  split <;> omega

/-- Magnitudes below a bound give the integers strictly between the bound and its negative. -/
theorem image_toInt_below (bound : Nat) :
    toInt '' below bound = Set.Icc (-((bound : Int) - 1)) (bound - 1) := by
  ext value
  simp only [Set.mem_image, Set.mem_Icc, mem_below]
  constructor
  · rintro ⟨signed, hbound, rfl⟩
    rw [toInt]
    split <;> omega
  · intro hrange
    exact ⟨ofInt value, by simp only [ofInt]; omega, toInt_ofInt value⟩

/-- With a plus sign an adjusted magnitude is one more than twice the magnitude. -/
theorem toInt_adjust_plus (magnitude : Nat) :
    (adjust ⟨false, magnitude⟩).toInt = 2 * (magnitude : Int) + 1 := rfl

/-- With a minus sign it is one more than twice an integer below 0. -/
theorem toInt_adjust_minus (magnitude : Nat) :
    (adjust ⟨true, magnitude⟩).toInt = 2 * (-(magnitude : Int) - 1) + 1 := by
  have hvalue : (adjust ⟨true, magnitude⟩).toInt = -(2 * (magnitude : Int) + 1) := rfl
  omega

/-- Adjusted magnitudes give every odd integer in reach, each once: no zero is among them. -/
theorem bijOn_toInt_adjust (bound : Nat) :
    Set.BijOn (fun value => value.adjust.toInt) (below bound)
      {value : Int | Odd value ∧ |value| ≤ 2 * bound - 1} := by
  refine ⟨?_, ?_, ?_⟩
  · rintro ⟨negative, magnitude⟩ hbound
    simp only [mem_below] at hbound
    cases negative with
    | false =>
      simp only [toInt_adjust_plus]
      exact ⟨⟨magnitude, rfl⟩, abs_le.2 (by omega)⟩
    | true =>
      simp only [toInt_adjust_minus]
      exact ⟨⟨-magnitude - 1, rfl⟩, abs_le.2 (by omega)⟩
  · rintro ⟨negative, magnitude⟩ - ⟨other, further⟩ - heq
    cases negative <;> cases other <;>
      simp only [toInt_adjust_plus, toInt_adjust_minus] at heq
    · have hsame : magnitude = further := by omega
      rw [hsame]
    · omega
    · omega
    · have hsame : magnitude = further := by omega
      rw [hsame]
  · rintro value ⟨⟨half, rfl⟩, hrange⟩
    rw [abs_le] at hrange
    by_cases hsign : 0 ≤ half
    · refine ⟨⟨false, half.toNat⟩, ?_, ?_⟩
      · simp only [mem_below]
        omega
      · simp only [toInt_adjust_plus]
        omega
    · refine ⟨⟨true, (-half - 1).toNat⟩, ?_, ?_⟩
      · simp only [mem_below]
        omega
      · simp only [toInt_adjust_minus]
        omega

end SignedMagnitude

/-! ### Whole ranges -/

/-- Taking half the range off numbers the range that is half negative. -/
theorem bijOn_sub_half (half : Nat) :
    Set.BijOn (fun raw : Nat => (raw : Int) - half) (Set.Iio (2 * half))
      (Set.Icc (-(half : Int)) (half - 1)) := by
  refine ⟨?_, ?_, ?_⟩
  · intro raw hraw
    simp only [Set.mem_Iio, Set.mem_Icc] at hraw ⊢
    omega
  · rintro raw - other - heq
    simp only at heq
    omega
  · intro value hvalue
    simp only [Set.mem_Icc] at hvalue
    refine ⟨(value + half).toNat, ?_, ?_⟩
    · simp only [Set.mem_Iio]
      omega
    · simp only
      omega

/-- Two's complement numbers the same range, the lower half of the raw components first. -/
theorem bijOn_bmod (half : Nat) :
    Set.BijOn (fun raw : Nat => Int.bmod raw (2 * half)) (Set.Iio (2 * half))
      (Set.Icc (-(half : Int)) (half - 1)) := by
  refine ⟨?_, ?_, ?_⟩
  · intro raw hraw
    simp only [Set.mem_Iio] at hraw
    simp only [bmod_two_mul hraw, Set.mem_Icc]
    split <;> omega
  · intro raw hraw other hother heq
    simp only [Set.mem_Iio] at hraw hother
    simp only [bmod_two_mul hraw, bmod_two_mul hother] at heq
    split at heq <;> split at heq <;> omega
  · intro value hvalue
    simp only [Set.mem_Icc] at hvalue
    by_cases hsign : 0 ≤ value
    · have hraw : value.toNat < 2 * half := by omega
      refine ⟨value.toNat, hraw, ?_⟩
      simp only [bmod_two_mul hraw]
      split <;> omega
    · have hraw : (value + 2 * half).toNat < 2 * half := by omega
      refine ⟨(value + 2 * half).toNat, hraw, ?_⟩
      simp only [bmod_two_mul hraw]
      split <;> omega

/-- Twice the value plus 1 turns the range into the odd integers in reach. -/
theorem bijOn_adjustedInt (half : Nat) :
    Set.BijOn (adjustedInt true) (Set.Icc (-(half : Int)) (half - 1))
      {value : Int | Odd value ∧ |value| ≤ 2 * half - 1} := by
  refine ⟨?_, ?_, ?_⟩
  · intro value hvalue
    simp only [Set.mem_Icc] at hvalue
    simp only [adjustedInt, if_true]
    exact ⟨⟨value, rfl⟩, abs_le.2 (by omega)⟩
  · rintro value - other - heq
    simp only [adjustedInt, if_true] at heq
    omega
  · rintro value ⟨⟨plain, rfl⟩, hrange⟩
    rw [abs_le] at hrange
    exact ⟨plain, by simp only [Set.mem_Icc]; omega, rfl⟩

/-! ### The codes -/

namespace IntegerCode

/-- The exact integer that a code gives to a raw component; a minus zero counts as 0. -/
def integer (code : IntegerCode) (adjusted : Bool) (width raw : Nat) : Int :=
  (code.value adjusted width raw).toInt

/-- Whether one bit of a component is a sign of its own, so that there are two zeros. -/
def hasSignBit : IntegerCode → Bool
  | signMagnitude | magnitudeSign => true
  | offsetBinary | twosComplement | offsetGray => false

/-- Offset binary takes half the range off. -/
theorem integer_offsetBinary (adjusted : Bool) (width raw : Nat) :
    offsetBinary.integer adjusted width raw =
      adjustedInt adjusted (raw - (2 ^ (width - 1) : Nat)) :=
  SignedMagnitude.toInt_ofInt _

/-- Two's complement is the balanced remainder. -/
theorem integer_twosComplement (adjusted : Bool) (width raw : Nat) :
    twosComplement.integer adjusted width raw = adjustedInt adjusted (Int.bmod raw (2 ^ width)) :=
  SignedMagnitude.toInt_ofInt _

/-- Offset Gray is offset binary behind the Gray decoding. -/
theorem integer_offsetGray (adjusted : Bool) (width raw : Nat) :
    offsetGray.integer adjusted width raw =
      offsetBinary.integer adjusted width (grayToBinary raw) := rfl

/-- Without a sign bit an adjusted code gives twice the plain value plus 1. -/
theorem integer_adjusted {code : IntegerCode} (hcode : code.hasSignBit = false) (width raw : Nat) :
    code.integer true width raw = adjustedInt true (code.integer false width raw) := by
  cases code with
  | signMagnitude | magnitudeSign => simp [hasSignBit] at hcode
  | offsetBinary => rw [integer_offsetBinary, integer_offsetBinary]; rfl
  | twosComplement => rw [integer_twosComplement, integer_twosComplement]; rfl
  | offsetGray =>
    simp only [integer_offsetGray, integer_offsetBinary]
    rfl

/-- With a sign bit an adjusted code adjusts the magnitude and leaves the sign. -/
theorem value_adjusted {code : IntegerCode} (hcode : code.hasSignBit = true) (width raw : Nat) :
    code.value true width raw = (code.value false width raw).adjust := by
  cases code with
  | signMagnitude | magnitudeSign => rfl
  | offsetBinary | twosComplement | offsetGray => simp [hasSignBit] at hcode

/-- Without a sign bit a code numbers the whole range that is half negative. -/
theorem bijOn_integer {code : IntegerCode} (hcode : code.hasSignBit = false) {width : Nat}
    (hpos : 1 ≤ width) (hle : width ≤ 64) :
    Set.BijOn (code.integer false width) (Set.Iio (2 ^ width))
      (Set.Icc (-((2 ^ (width - 1) : Nat) : Int)) ((2 ^ (width - 1) : Nat) - 1)) := by
  have hhalves := two_pow_eq_two_mul hpos
  have hoffset : Set.BijOn (offsetBinary.integer false width) (Set.Iio (2 ^ width))
      (Set.Icc (-((2 ^ (width - 1) : Nat) : Int)) ((2 ^ (width - 1) : Nat) - 1)) := by
    rw [hhalves]
    exact (bijOn_sub_half _).congr fun raw _ => (integer_offsetBinary false width raw).symm
  cases code with
  | signMagnitude | magnitudeSign => simp [hasSignBit] at hcode
  | offsetBinary => exact hoffset
  | twosComplement =>
    have hreading : ∀ raw : Nat, Int.bmod raw (2 * 2 ^ (width - 1)) =
        twosComplement.integer false width raw := by
      intro raw
      rw [integer_twosComplement, ← hhalves]
      rfl
    rw [hhalves]
    exact (bijOn_bmod _).congr fun raw _ => hreading raw
  | offsetGray => exact hoffset.comp (bijOn_grayToBinary hle)

/-- Two's complement is that of words of the width. -/
theorem integer_twosComplement_eq_toInt {width raw : Nat} (hraw : raw < 2 ^ width) :
    twosComplement.integer false width raw = (BitVec.ofNat width raw).toInt := by
  rw [integer_twosComplement, BitVec.toInt_eq_toNat_bmod, BitVec.toNat_ofNat,
    Nat.mod_eq_of_lt hraw]
  rfl

/-- Two's complement is read by shifts to the top of a word of 128 bits and back. -/
theorem integer_twosComplement_eq_shifts {width raw : Nat} (hpos : 1 ≤ width) (hle : width ≤ 64)
    (hraw : raw < 2 ^ width) : twosComplement.integer false width raw =
      ((BitVec.ofNat 128 raw <<< (128 - width)).sshiftRight (128 - width)).toInt := by
  rw [toInt_sshiftRight_shiftLeft hpos (by omega) hraw, integer_twosComplement]
  rfl

/-- Offset Gray gives to the Gray code of a number what offset binary gives to the number. -/
theorem integer_offsetGray_eq {width number : Nat} (hle : width ≤ 64)
    (hnumber : number < 2 ^ width) :
    offsetGray.integer false width (xorShift number 1) =
      offsetBinary.integer false width number := by
  have hsmall : number < 2 ^ 64 :=
    Nat.lt_of_lt_of_le hnumber (Nat.pow_le_pow_right (by decide) hle)
  rw [integer_offsetGray, grayToBinary_xorShift_one hsmall]

/-- Changing the top bit makes two's complement of offset binary. -/
theorem integer_offsetBinary_eq {width raw : Nat} (hpos : 1 ≤ width) (hraw : raw < 2 ^ width) :
    offsetBinary.integer false width raw =
      twosComplement.integer false width (raw ^^^ 2 ^ (width - 1)) := by
  rw [two_pow_eq_two_mul hpos] at hraw
  have hchanged := xor_two_pow_half hraw
  have hbound : raw ^^^ 2 ^ (width - 1) < 2 * 2 ^ (width - 1) := by
    rw [hchanged]
    split <;> omega
  rw [integer_offsetBinary, integer_twosComplement, two_pow_eq_two_mul hpos, bmod_two_mul hbound,
    hchanged]
  simp only [adjustedInt, Bool.false_eq_true, if_false]
  split <;> split <;> omega

/-- The sign bit is the top one, and the bits below it are the magnitude. -/
theorem signMagnitude_parts {width raw : Nat} (hpos : 1 ≤ width) (hraw : raw < 2 ^ width) :
    raw = (signMagnitude.value false width raw).negative.toNat * 2 ^ (width - 1) +
      (signMagnitude.value false width raw).magnitude := by
  have htop : raw / 2 ^ (width - 1) < 2 :=
    Nat.div_lt_of_lt_mul (Nat.mul_comm 2 _ ▸ two_pow_eq_two_mul hpos ▸ hraw)
  have hsign : (raw.testBit (width - 1)).toNat = raw / 2 ^ (width - 1) := by
    rw [Nat.toNat_testBit, Nat.mod_eq_of_lt htop]
  calc raw = raw / 2 ^ (width - 1) * 2 ^ (width - 1) + raw % 2 ^ (width - 1) :=
        (Nat.div_add_mod' raw _).symm
    _ = (raw.testBit (width - 1)).toNat * 2 ^ (width - 1) + raw % 2 ^ (width - 1) := by rw [hsign]

/-- The sign bit is the bottom one, and the bits above it are the magnitude. -/
theorem magnitudeSign_parts (width raw : Nat) :
    raw = 2 * (magnitudeSign.value false width raw).magnitude +
      (magnitudeSign.value false width raw).negative.toNat := by
  have hsign : (raw.testBit 0).toNat = raw % 2 := by
    rw [Nat.toNat_testBit, Nat.pow_zero, Nat.div_one]
  calc raw = 2 * (raw / 2) + raw % 2 := (Nat.div_add_mod raw 2).symm
    _ = 2 * (raw / 2) + (raw.testBit 0).toNat := by rw [hsign]

/-- With a sign bit the magnitude has one bit less than the component. -/
theorem magnitude_value_lt {code : IntegerCode} (hcode : code.hasSignBit = true) {width raw : Nat}
    (hpos : 1 ≤ width) (hraw : raw < 2 ^ width) :
    (code.value false width raw).magnitude < 2 ^ (width - 1) := by
  cases code with
  | offsetBinary | twosComplement | offsetGray => simp [hasSignBit] at hcode
  | signMagnitude => exact Nat.mod_lt raw (Nat.two_pow_pos _)
  | magnitudeSign =>
    rw [two_pow_eq_two_mul hpos] at hraw
    have hhalved : raw / 2 < 2 ^ (width - 1) := by omega
    exact hhalved

/-- With a sign bit a code gives every magnitude of one bit less with either sign, each once. -/
theorem bijOn_value {code : IntegerCode} (hcode : code.hasSignBit = true) {width : Nat}
    (hpos : 1 ≤ width) :
    Set.BijOn (code.value false width) (Set.Iio (2 ^ width))
      (SignedMagnitude.below (2 ^ (width - 1))) := by
  have hhalves := two_pow_eq_two_mul hpos
  have hmaps : Set.MapsTo (code.value false width) (Set.Iio (2 ^ width))
      (SignedMagnitude.below (2 ^ (width - 1))) := fun raw hraw =>
    magnitude_value_lt hcode hpos hraw
  cases code with
  | offsetBinary | twosComplement | offsetGray => simp [hasSignBit] at hcode
  | signMagnitude =>
    have hinverse : Set.InvOn
        (fun parts : SignedMagnitude =>
          parts.negative.toNat * 2 ^ (width - 1) + parts.magnitude)
        (signMagnitude.value false width) (Set.Iio (2 ^ width))
        (SignedMagnitude.below (2 ^ (width - 1))) := by
      refine ⟨fun raw hraw => (signMagnitude_parts hpos hraw).symm, ?_⟩
      rintro ⟨negative, magnitude⟩ hbound
      simp only [SignedMagnitude.mem_below] at hbound
      have hbelow := Nat.testBit_lt_two_pow hbound
      cases negative <;>
        simp [value, adjustedMagnitude, Nat.testBit_two_pow_add_eq, hbelow,
          Nat.mod_eq_of_lt hbound]
    refine hinverse.bijOn hmaps ?_
    rintro ⟨negative, magnitude⟩ hbound
    simp only [SignedMagnitude.mem_below] at hbound
    rw [Set.mem_Iio, hhalves]
    cases negative <;> simp <;> omega
  | magnitudeSign =>
    have hinverse : Set.InvOn
        (fun parts : SignedMagnitude => 2 * parts.magnitude + parts.negative.toNat)
        (magnitudeSign.value false width) (Set.Iio (2 ^ width))
        (SignedMagnitude.below (2 ^ (width - 1))) := by
      refine ⟨fun raw _ => (magnitudeSign_parts width raw).symm, ?_⟩
      rintro ⟨negative, magnitude⟩ -
      cases negative
      · simp [value, adjustedMagnitude]
      · simp [value, adjustedMagnitude]
        omega
    refine hinverse.bijOn hmaps ?_
    rintro ⟨negative, magnitude⟩ hbound
    simp only [SignedMagnitude.mem_below] at hbound
    rw [Set.mem_Iio, hhalves]
    cases negative <;> simp <;> omega

/-- With a sign bit a code reaches the integers whose magnitude has one bit less. -/
theorem image_integer {code : IntegerCode} (hcode : code.hasSignBit = true) {width : Nat}
    (hpos : 1 ≤ width) :
    code.integer false width '' Set.Iio (2 ^ width) =
      Set.Icc (-(((2 ^ (width - 1) : Nat) : Int) - 1)) ((2 ^ (width - 1) : Nat) - 1) := by
  calc code.integer false width '' Set.Iio (2 ^ width)
      = SignedMagnitude.toInt '' (code.value false width '' Set.Iio (2 ^ width)) :=
        (Set.image_image SignedMagnitude.toInt (code.value false width) _).symm
    _ = SignedMagnitude.toInt '' SignedMagnitude.below (2 ^ (width - 1)) := by
        rw [(bijOn_value hcode hpos).image_eq]
    _ = _ := SignedMagnitude.image_toInt_below _

/-- With a sign bit there are two raw components for 0, one for each sign. -/
theorem ncard_zeros {code : IntegerCode} (hcode : code.hasSignBit = true) {width : Nat}
    (hpos : 1 ≤ width) :
    {raw | raw < 2 ^ width ∧ code.integer false width raw = 0}.ncard = 2 := by
  have hbij := bijOn_value hcode hpos
  have hinj : Set.InjOn (code.value false width)
      {raw | raw < 2 ^ width ∧ code.integer false width raw = 0} :=
    hbij.injOn.mono fun raw hraw => hraw.1
  have himage : code.value false width ''
      {raw | raw < 2 ^ width ∧ code.integer false width raw = 0} = {⟨false, 0⟩, ⟨true, 0⟩} := by
    ext ⟨negative, magnitude⟩
    constructor
    · rintro ⟨raw, ⟨-, hzero⟩, hvalue⟩
      rw [integer, SignedMagnitude.toInt_eq_zero_iff, hvalue] at hzero
      obtain rfl : magnitude = 0 := hzero
      cases negative with
      | false => exact .inl rfl
      | true => exact .inr rfl
    · intro hzero
      have hmagnitude : magnitude = 0 := by
        rcases hzero with hzero | hzero <;> exact congrArg SignedMagnitude.magnitude hzero
      obtain ⟨raw, hraw, hvalue⟩ := hbij.surjOn
        (show (⟨negative, magnitude⟩ : SignedMagnitude) ∈ SignedMagnitude.below (2 ^ (width - 1))
          from hmagnitude ▸ Nat.two_pow_pos _)
      refine ⟨raw, ⟨hraw, ?_⟩, hvalue⟩
      rw [integer, SignedMagnitude.toInt_eq_zero_iff, hvalue, hmagnitude]
  rw [← hinj.ncard_image, himage]
  exact Set.ncard_pair (by simp)

/-- The adjusted form of every code numbers the odd integers in reach. -/
theorem bijOn_integer_adjusted (code : IntegerCode) {width : Nat} (hpos : 1 ≤ width)
    (hle : width ≤ 64) :
    Set.BijOn (code.integer true width) (Set.Iio (2 ^ width))
      {value : Int | Odd value ∧ |value| ≤ 2 * (2 ^ (width - 1) : Nat) - 1} := by
  cases hcode : code.hasSignBit with
  | false =>
    exact ((bijOn_adjustedInt _).comp (bijOn_integer hcode hpos hle)).congr fun raw _ =>
      (integer_adjusted hcode width raw).symm
  | true =>
    refine ((SignedMagnitude.bijOn_toInt_adjust _).comp (bijOn_value hcode hpos)).congr ?_
    intro raw _
    rw [integer, value_adjusted hcode]
    rfl

end IntegerCode

/-- What the decoders of a component width make of raw components below `2 ^ width`. -/
structure Decoder.ReadsIntegers (width : Nat) : Prop where
  /-- Each format and integer code has a decoder of the width, and that decoder rounds the code's
  exact value. -/
  component : ∀ (format : SampleFormat) (code : IntegerCode) (adjusted : Bool),
    ∃ decoder : Decoder, ofWidth? format (.integer code adjusted) width = some decoder ∧
      ∀ raw, decoder.component raw = (code.value adjusted width raw).toFloat
  /-- A code without a sign bit numbers the whole range. -/
  whole : ∀ code : IntegerCode, code.hasSignBit = false →
    Set.BijOn (code.integer false width) (Set.Iio (2 ^ width))
      (Set.Icc (-2 ^ (width - 1)) (2 ^ (width - 1) - 1))
  /-- Two's complement is that of words of the width. -/
  twosComplement : ∀ raw < 2 ^ width,
    IntegerCode.twosComplement.integer false width raw = (BitVec.ofNat width raw).toInt
  /-- Two's complement is read by shifts to the top of a word of 128 bits and back. -/
  shifts : ∀ raw < 2 ^ width, IntegerCode.twosComplement.integer false width raw =
    ((BitVec.ofNat 128 raw <<< (128 - width)).sshiftRight (128 - width)).toInt
  /-- Offset binary is two's complement with the top bit changed. -/
  offsetBinary : ∀ raw < 2 ^ width, IntegerCode.offsetBinary.integer false width raw =
    IntegerCode.twosComplement.integer false width (raw ^^^ 2 ^ (width - 1))
  /-- Offset Gray gives to the reflected Gray code of a number what offset binary gives to it. -/
  offsetGray : ∀ number < 2 ^ width,
    IntegerCode.offsetGray.integer false width (number ^^^ (number >>> 1)) =
      IntegerCode.offsetBinary.integer false width number
  /-- The sign bit on top, the magnitude in the bits below it. -/
  signMagnitude : ∀ raw < 2 ^ width,
    raw = (IntegerCode.signMagnitude.value false width raw).negative.toNat * 2 ^ (width - 1) +
      (IntegerCode.signMagnitude.value false width raw).magnitude
  /-- The sign bit at the bottom, the magnitude in the bits above it. -/
  magnitudeSign : ∀ raw < 2 ^ width,
    raw = 2 * (IntegerCode.magnitudeSign.value false width raw).magnitude +
      (IntegerCode.magnitudeSign.value false width raw).negative.toNat
  /-- The magnitude has one bit less than the component. -/
  magnitude : ∀ code : IntegerCode, code.hasSignBit = true → ∀ raw < 2 ^ width,
    (code.value false width raw).magnitude < 2 ^ (width - 1)
  /-- A code with a sign bit reaches every integer of such a magnitude. -/
  signed : ∀ code : IntegerCode, code.hasSignBit = true →
    code.integer false width '' Set.Iio (2 ^ width) =
      Set.Icc (-(2 ^ (width - 1) - 1)) (2 ^ (width - 1) - 1)
  /-- A code with a sign bit has two raw components for 0. -/
  zeros : ∀ code : IntegerCode, code.hasSignBit = true →
    {raw | raw < 2 ^ width ∧ code.integer false width raw = 0}.ncard = 2
  /-- Without a sign bit the adjusted value is twice the plain one plus 1. -/
  adjustedValue : ∀ code : IntegerCode, code.hasSignBit = false → ∀ raw < 2 ^ width,
    code.integer true width raw = 2 * code.integer false width raw + 1
  /-- With a sign bit the sign stays and twice the magnitude plus 1 gets it. -/
  adjustedMagnitude : ∀ code : IntegerCode, code.hasSignBit = true → ∀ raw < 2 ^ width,
    code.value true width raw = ⟨(code.value false width raw).negative,
      2 * (code.value false width raw).magnitude + 1⟩
  /-- Every adjusted code numbers the odd integers in reach. -/
  adjusted : ∀ code : IntegerCode, Set.BijOn (code.integer true width) (Set.Iio (2 ^ width))
    {value : Int | Odd value ∧ |value| ≤ 2 ^ width - 1}

/-- A component width from 1 to 64 has a decoder of every format and integer code, and it gives the
value of the code. -/
theorem Decoder.exists_ofWidth (format : SampleFormat) (code : IntegerCode) (adjusted : Bool)
    {width : Nat} (hpos : 1 ≤ width) (hle : width ≤ 64) :
    ∃ decoder : Decoder, ofWidth? format (.integer code adjusted) width = some decoder ∧
      ∀ raw, decoder.component raw = (code.value adjusted width raw).toFloat := by
  have hsupported : (Encoding.integer code adjusted).supports width = true := by
    simp [Encoding.supports, hpos, hle]
  exact ⟨⟨format, .integer code adjusted, width, hsupported⟩, dif_pos hsupported, fun _ => rfl⟩

/-- At every width of a component the decoders are faithful to their codes. The Gray decoding and
the two halves of the range are what carries this up to 64 bits and down to 1. -/
theorem Decoder.readsIntegers_of_width (width : Nat) (hpos : 1 ≤ width) (hle : width ≤ 64) :
    Decoder.ReadsIntegers width := by
  have hhalf : ((2 ^ (width - 1) : Nat) : Int) = 2 ^ (width - 1) := by
    push_cast
    rfl
  have hfull : (2 : Int) * (2 ^ (width - 1) : Nat) = 2 ^ width := by
    rw [← Nat.cast_ofNat, ← Nat.cast_mul, ← two_pow_eq_two_mul hpos]
    push_cast
    rfl
  exact
    { component := fun format code adjusted => exists_ofWidth format code adjusted hpos hle
      whole := fun code hcode => hhalf ▸ IntegerCode.bijOn_integer hcode hpos hle
      twosComplement := fun raw hraw => IntegerCode.integer_twosComplement_eq_toInt hraw
      shifts := fun raw hraw => IntegerCode.integer_twosComplement_eq_shifts hpos hle hraw
      offsetBinary := fun raw hraw => IntegerCode.integer_offsetBinary_eq hpos hraw
      offsetGray := fun number hnumber => IntegerCode.integer_offsetGray_eq hle hnumber
      signMagnitude := fun raw hraw => IntegerCode.signMagnitude_parts hpos hraw
      magnitudeSign := fun raw _ => IntegerCode.magnitudeSign_parts width raw
      magnitude := fun code hcode raw hraw => IntegerCode.magnitude_value_lt hcode hpos hraw
      signed := fun code hcode => hhalf ▸ IntegerCode.image_integer hcode hpos
      zeros := fun code hcode => IntegerCode.ncard_zeros hcode hpos
      adjustedValue := fun code hcode raw _ => IntegerCode.integer_adjusted hcode width raw
      adjustedMagnitude := fun code hcode raw _ => IntegerCode.value_adjusted hcode width raw
      adjusted := fun code => hfull ▸ IntegerCode.bijOn_integer_adjusted code hpos hle }

/-- The two borders: components of one bit, and components of 64 bits, whose lowest value is read
from the top bit alone. -/
theorem Decoder.readsIntegers_of_one_and_sixtyFour :
    Decoder.ReadsIntegers 1 ∧ Decoder.ReadsIntegers 64 ∧
      IntegerCode.twosComplement.integer false 64 (2 ^ 63) = -2 ^ 63 :=
  ⟨readsIntegers_of_width 1 (by decide) (by decide),
    readsIntegers_of_width 64 (by decide) (by decide), by decide⟩

end SampleDemux
