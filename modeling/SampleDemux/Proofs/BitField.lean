import SampleDemux.BitReader
import Mathlib.Algebra.Order.Ring.Nat
import Mathlib.Tactic.Positivity
import Mathlib.Tactic.Ring

/-!
# Runs of bits of a number

Bits are counted from the most or from the least significant end of a fixed number of bits, and a
run of them is a quotient by a power of two, reduced by a second one. Runs that lie side by side are
joined to their common run; a list of widths cuts a number into runs and joining gives the number
back. Bytes, words and the units of a chunk are all such runs.
-/

namespace SampleDemux

/-- The part of a number that a run of bits is, when bits are counted from one end of `capacity`
bits: from the most or from the least significant one. -/
def bitField (order : BitOrder) (capacity number start width : ℕ) : ℕ :=
  match order with
  | .msbFirst => number / 2 ^ (capacity - start - width) % 2 ^ width
  | .lsbFirst => number / 2 ^ start % 2 ^ width

/-- A run of bits is below its power of two. -/
theorem bitField_lt (order : BitOrder) (capacity number start width : ℕ) :
    bitField order capacity number start width < 2 ^ width := by
  cases order <;> exact Nat.mod_lt _ (by positivity)

/-- An empty run has no value. -/
@[simp]
theorem bitField_zero_width (order : BitOrder) (capacity number start : ℕ) :
    bitField order capacity number start 0 = 0 := by
  cases order <;> simp [bitField, Nat.mod_one]

/-- All bits together are the number. -/
theorem bitField_whole (order : BitOrder) {capacity number : ℕ} (h : number < 2 ^ capacity) :
    bitField order capacity number 0 capacity = number := by
  cases order <;> simp [bitField, Nat.mod_eq_of_lt h]

/-- Two numbers that are the parts of one run, put together in the order of the bits. -/
def joinFields (order : BitOrder) (first second firstWidth secondWidth : ℕ) : ℕ :=
  match order with
  | .msbFirst => first * 2 ^ secondWidth + second
  | .lsbFirst => first + second * 2 ^ firstWidth

/-- A run is its first part joined with its second part. -/
theorem bitField_add (order : BitOrder) {capacity number start firstWidth secondWidth : ℕ}
    (h : start + firstWidth + secondWidth ≤ capacity) :
    bitField order capacity number start (firstWidth + secondWidth) =
      joinFields order (bitField order capacity number start firstWidth)
        (bitField order capacity number (start + firstWidth) secondWidth) firstWidth
        secondWidth := by
  cases order with
  | msbFirst =>
    have hlow : capacity - start - (firstWidth + secondWidth) =
        capacity - (start + firstWidth) - secondWidth := by omega
    have hhigh : capacity - start - firstWidth =
        capacity - (start + firstWidth) - secondWidth + secondWidth := by omega
    simp only [bitField, joinFields, hlow, hhigh]
    rw [Nat.add_comm firstWidth secondWidth, pow_add, Nat.mod_mul, pow_add,
      ← Nat.div_div_eq_div_mul]
    ring
  | lsbFirst =>
    simp only [bitField, joinFields]
    rw [pow_add, Nat.mod_mul, pow_add, ← Nat.div_div_eq_div_mul]
    ring

section Join

variable {first second firstWidth secondWidth : ℕ}

/-- Parts that fit give a number that fits. -/
theorem joinFields_lt (order : BitOrder) (hfirst : first < 2 ^ firstWidth)
    (hsecond : second < 2 ^ secondWidth) :
    joinFields order first second firstWidth secondWidth < 2 ^ (firstWidth + secondWidth) := by
  cases order with
  | msbFirst =>
    calc first * 2 ^ secondWidth + second
        < first * 2 ^ secondWidth + 2 ^ secondWidth := by omega
      _ = (first + 1) * 2 ^ secondWidth := by ring
      _ ≤ 2 ^ firstWidth * 2 ^ secondWidth := Nat.mul_le_mul_right _ hfirst
      _ = 2 ^ (firstWidth + secondWidth) := (pow_add ..).symm
  | lsbFirst =>
    calc first + second * 2 ^ firstWidth
        < 2 ^ firstWidth + second * 2 ^ firstWidth := by omega
      _ = (second + 1) * 2 ^ firstWidth := by ring
      _ ≤ 2 ^ secondWidth * 2 ^ firstWidth := Nat.mul_le_mul_right _ hsecond
      _ = 2 ^ (firstWidth + secondWidth) := by ring

/-- The first part is the run that the joined number begins with. -/
theorem bitField_joinFields_first (order : BitOrder) (hfirst : first < 2 ^ firstWidth)
    (hsecond : second < 2 ^ secondWidth) :
    bitField order (firstWidth + secondWidth)
      (joinFields order first second firstWidth secondWidth) 0 firstWidth = first := by
  cases order with
  | msbFirst =>
    have hplace : firstWidth + secondWidth - 0 - firstWidth = secondWidth := by omega
    simp only [bitField, joinFields, hplace]
    rw [Nat.add_comm, Nat.add_mul_div_right _ _ (by positivity), Nat.div_eq_of_lt hsecond,
      Nat.zero_add, Nat.mod_eq_of_lt hfirst]
  | lsbFirst =>
    simp only [bitField, joinFields, pow_zero, Nat.div_one]
    rw [Nat.add_mul_mod_self_right, Nat.mod_eq_of_lt hfirst]

/-- A run behind the first part is a run of the second part. -/
theorem bitField_joinFields_second (order : BitOrder) {start width : ℕ}
    (hfirst : first < 2 ^ firstWidth) (h : start + width ≤ secondWidth) :
    bitField order (firstWidth + secondWidth)
      (joinFields order first second firstWidth secondWidth) (firstWidth + start) width =
      bitField order secondWidth second start width := by
  cases order with
  | msbFirst =>
    have hplace : firstWidth + secondWidth - (firstWidth + start) - width =
        secondWidth - start - width := by omega
    have hsplit : secondWidth = secondWidth - start - width + (width + start) := by omega
    simp only [bitField, joinFields, hplace]
    -- What the first part adds is a multiple of 2 ^ width once the low bits are shifted away.
    generalize secondWidth - start - width = low at hsplit ⊢
    rw [hsplit, show first * 2 ^ (low + (width + start)) + second =
      second + first * 2 ^ start * 2 ^ width * 2 ^ low by ring,
      Nat.add_mul_div_right _ _ (by positivity), Nat.add_mul_mod_self_right]
  | lsbFirst =>
    simp only [bitField, joinFields]
    rw [pow_add, ← Nat.div_div_eq_div_mul, Nat.add_mul_div_right _ _ (by positivity),
      Nat.div_eq_of_lt hfirst, Nat.zero_add]

end Join

/-- The sum of the widths of runs that are given with their values. -/
def fieldBits (fields : List (ℕ × ℕ)) : ℕ := (fields.map Prod.fst).sum

/-- All values fit into their widths. -/
def FieldsFit (fields : List (ℕ × ℕ)) : Prop := ∀ field ∈ fields, field.2 < 2 ^ field.1

/-- The number of runs side by side, each one a width with its value. -/
def joinAll (order : BitOrder) : List (ℕ × ℕ) → ℕ
  | [] => 0
  | (width, value) :: rest => joinFields order value (joinAll order rest) width (fieldBits rest)

/-- The runs into which widths cut a number from a place on. -/
def splitAll (order : BitOrder) (capacity number : ℕ) : ℕ → List ℕ → List ℕ
  | _, [] => []
  | start, width :: rest =>
    bitField order capacity number start width ::
      splitAll order capacity number (start + width) rest

/-- There is one run for each width. -/
@[simp]
theorem length_splitAll (order : BitOrder) (capacity number start : ℕ) (widths : List ℕ) :
    (splitAll order capacity number start widths).length = widths.length := by
  induction widths generalizing start with
  | nil => rfl
  | cons width widths ih => simp only [splitAll, List.length_cons, ih]

/-- Widths side by side cut a number as the first ones and then the others do. -/
theorem splitAll_append (order : BitOrder) (capacity number start : ℕ) (front back : List ℕ) :
    splitAll order capacity number start (front ++ back) =
      splitAll order capacity number start front ++
        splitAll order capacity number (start + front.sum) back := by
  induction front generalizing start with
  | nil => simp [splitAll]
  | cons width front ih =>
    simp only [List.cons_append, splitAll, ih, List.sum_cons, Nat.add_assoc]

/-- Every run of a cut fits into its width. -/
theorem fieldsFit_splitAll (order : BitOrder) (capacity number start : ℕ) (widths : List ℕ) :
    FieldsFit (widths.zip (splitAll order capacity number start widths)) := by
  induction widths generalizing start with
  | nil => intro field hfield; simp [splitAll] at hfield
  | cons width widths ih =>
    intro field hfield
    rw [splitAll, List.zip_cons_cons, List.mem_cons] at hfield
    rcases hfield with rfl | hfield
    · exact bitField_lt ..
    · exact ih _ field hfield

/-- Runs that fit give a number that fits. -/
theorem joinAll_lt (order : BitOrder) {fields : List (ℕ × ℕ)} (h : FieldsFit fields) :
    joinAll order fields < 2 ^ fieldBits fields := by
  induction fields with
  | nil => simp [joinAll, fieldBits]
  | cons field fields ih =>
    have hrest := ih fun other hother => h other (List.mem_cons_of_mem _ hother)
    exact joinFields_lt order (h field List.mem_cons_self) hrest

/-- Joining what widths cut gives the run that they cover. -/
theorem joinAll_splitAll (order : BitOrder) {capacity number start : ℕ} {widths : List ℕ}
    (h : start + widths.sum ≤ capacity) :
    joinAll order (widths.zip (splitAll order capacity number start widths)) =
      bitField order capacity number start widths.sum := by
  induction widths generalizing start with
  | nil => simp [splitAll, joinAll]
  | cons width widths ih =>
    rw [List.sum_cons] at h ⊢
    have hbits : fieldBits (widths.zip (splitAll order capacity number (start + width) widths)) =
        widths.sum := by
      rw [fieldBits, List.map_fst_zip (by simp)]
    rw [splitAll, List.zip_cons_cons, joinAll, ih (by omega), hbits,
      bitField_add order (by omega)]

/-- Behind a first run, widths cut a joined number as they cut its second part. -/
theorem splitAll_joinFields (order : BitOrder) {first second firstWidth secondWidth start : ℕ}
    {widths : List ℕ} (hfirst : first < 2 ^ firstWidth) (h : start + widths.sum ≤ secondWidth) :
    splitAll order (firstWidth + secondWidth)
      (joinFields order first second firstWidth secondWidth) (firstWidth + start) widths =
      splitAll order secondWidth second start widths := by
  induction widths generalizing start with
  | nil => rfl
  | cons width widths ih =>
    rw [List.sum_cons] at h
    rw [splitAll, splitAll, bitField_joinFields_second order hfirst (by omega), Nat.add_assoc,
      ih (by omega)]

/-- Cutting what was joined gives every run back. -/
theorem splitAll_joinAll (order : BitOrder) {fields : List (ℕ × ℕ)} (h : FieldsFit fields) :
    splitAll order (fieldBits fields) (joinAll order fields) 0 (fields.map Prod.fst) =
      fields.map Prod.snd := by
  induction fields with
  | nil => rfl
  | cons field fields ih =>
    have hrest : FieldsFit fields := fun other hother => h other (List.mem_cons_of_mem _ hother)
    have hbits : fieldBits (field :: fields) = field.1 + fieldBits fields := rfl
    have htail : splitAll order (field.1 + fieldBits fields)
        (joinFields order field.2 (joinAll order fields) field.1 (fieldBits fields))
        (field.1 + 0) (fields.map Prod.fst) =
          splitAll order (fieldBits fields) (joinAll order fields) 0 (fields.map Prod.fst) :=
      splitAll_joinFields order (h field List.mem_cons_self) (by rw [fieldBits]; omega)
    rw [hbits, List.map_cons, List.map_cons, splitAll, joinAll,
      bitField_joinFields_first order (h field List.mem_cons_self) (joinAll_lt order hrest),
      Nat.zero_add, ← ih hrest, ← htail, Nat.add_zero]

end SampleDemux
