import SampleDemux.Lane.Chunk
import SampleDemux.Proofs.BitString
import Mathlib.Algebra.BigOperators.Ring.Finset

/-!
# The number behind the words of a chunk

A word has a value in its declared byte order, and the words of a chunk form one number: the first
word is the most significant one when bits are taken from the left and the least significant one
when they are taken from the right. Rewriting the words for the bit reader keeps this number, every
number of the chunk's bits belongs to exactly one buffer, and reversing the bytes of all words is
undone by declaring the opposite byte order.
-/

namespace SampleDemux

open BitReader

/-- The end of the words from which a direction takes bits. -/
def Direction.bitOrder : Direction → BitOrder
  | .left => .msbFirst
  | .right => .lsbFirst

/-- The byte order in which a direction wants its words. -/
def Direction.byteOrder : Direction → ByteOrder
  | .left => .big
  | .right => .little

namespace ByteOrder

/-- The other byte order. -/
def opposite : ByteOrder → ByteOrder
  | big => little
  | little => big

/-- The value of a word in a byte order. -/
def value (order : ByteOrder) (word : List UInt8) : ℕ :=
  match order with
  | big => byteNumber word.reverse
  | little => byteNumber word

/-- The word of so many bytes that has a value. -/
def word (order : ByteOrder) (bytes value : ℕ) : List UInt8 :=
  let digits := (List.range bytes).map fun place => UInt8.ofNat (value / 256 ^ place % 256)
  match order with
  | big => digits.reverse
  | little => digits

/-- A word has its bytes. -/
@[simp]
theorem length_word (order : ByteOrder) (bytes value : ℕ) :
    (order.word bytes value).length = bytes := by
  cases order <;> simp [word]

/-- The digits of a number, least significant first, form the number again. -/
theorem byteNumber_digits (bytes value : ℕ) :
    byteNumber ((List.range bytes).map fun place => UInt8.ofNat (value / 256 ^ place % 256)) =
      value % 256 ^ bytes := by
  induction bytes with
  | zero => simp [byteNumber, Nat.mod_one]
  | succ bytes ih =>
    have hdigit : (UInt8.ofNat (value / 256 ^ bytes % 256)).toNat = value / 256 ^ bytes % 256 :=
      UInt8.toNat_ofNat_of_lt (Nat.mod_lt _ (by decide))
    rw [List.range_succ, List.map_append, byteNumber_append, ih, List.map_singleton,
      byteNumber_cons, hdigit, List.length_map, List.length_range, Nat.mod_pow_succ,
      show (256 : ℕ) = 2 ^ 8 by rfl, ← pow_mul]
    simp [byteNumber]

/-- A word has the value that it was made for, as far as it fits. -/
theorem value_word (order : ByteOrder) {bytes value : ℕ} (h : value < 2 ^ (8 * bytes)) :
    order.value (order.word bytes value) = value := by
  have hfit : value % 256 ^ bytes = value :=
    Nat.mod_eq_of_lt (by rwa [show (256 : ℕ) = 2 ^ 8 by rfl, ← pow_mul])
  cases order <;> simp only [ByteOrder.value, word, List.reverse_reverse, byteNumber_digits, hfit]

/-- A reversed word has the same value in the opposite byte order. -/
theorem value_opposite_reverse (order : ByteOrder) (word : List UInt8) :
    order.opposite.value word.reverse = order.value word := by
  cases order <;> simp only [opposite, value, List.reverse_reverse]

end ByteOrder

/-- The words of a buffer, of so many bytes each. -/
def wordsOf (bytes count : ℕ) (data : List UInt8) : List (List UInt8) :=
  (List.range count).map fun index => (data.drop (index * bytes)).take bytes

/-- A word stands before the words behind it. -/
theorem wordsOf_succ (bytes count : ℕ) (data : List UInt8) :
    wordsOf bytes (count + 1) data = data.take bytes :: wordsOf bytes count (data.drop bytes) := by
  simp only [wordsOf, List.range_succ_eq_map, List.map_cons, List.map_map, Nat.zero_mul,
    List.drop_zero, List.cons.injEq, true_and]
  refine List.map_congr_left fun index _ => ?_
  simp only [Function.comp_apply, List.drop_drop, Nat.succ_mul, Nat.add_comm]

/-- There are so many words. -/
@[simp]
theorem length_wordsOf (bytes count : ℕ) (data : List UInt8) :
    (wordsOf bytes count data).length = count := by simp [wordsOf]

/-- Words of a buffer that has them all have their bytes. -/
theorem length_of_mem_wordsOf {bytes count : ℕ} {data word : List UInt8}
    (hlength : data.length = bytes * count) (hword : word ∈ wordsOf bytes count data) :
    word.length = bytes := by
  rcases List.mem_map.mp hword with ⟨index, hindex, rfl⟩
  have hroom : (index + 1) * bytes ≤ count * bytes :=
    Nat.mul_le_mul_right _ (List.mem_range.mp hindex)
  simp only [List.length_take, List.length_drop, hlength]
  rw [Nat.add_mul, Nat.mul_comm count] at hroom
  omega

/-- The words of words side by side. -/
theorem wordsOf_flatten {bytes : ℕ} {words : List (List UInt8)}
    (h : ∀ word ∈ words, word.length = bytes) :
    wordsOf bytes words.length words.flatten = words := by
  induction words with
  | nil => rfl
  | cons word words ih =>
    have hword : word.length = bytes := h word List.mem_cons_self
    rw [List.length_cons, List.flatten_cons, wordsOf_succ, ← hword, List.take_left,
      List.drop_left, hword, ih fun other hother => h other (List.mem_cons_of_mem _ hother)]

/-- The words side by side are the buffer. -/
theorem flatten_wordsOf {bytes count : ℕ} {data : List UInt8}
    (hlength : data.length = bytes * count) : (wordsOf bytes count data).flatten = data := by
  induction count generalizing data with
  | zero =>
    have hempty : data = [] := List.length_eq_zero_iff.mp (by simpa using hlength)
    simp [wordsOf, hempty]
  | succ count ih =>
    rw [wordsOf_succ, List.flatten_cons, ih, List.take_append_drop]
    rw [List.length_drop, hlength, Nat.mul_succ, Nat.add_sub_cancel]

/-- The words of a buffer whose words were rewritten one by one. -/
theorem wordsOf_rewritten {bytes count : ℕ} {data : List UInt8}
    (hlength : data.length = bytes * count) {rewrite : List UInt8 → List UInt8}
    (hrewrite : ∀ word, (rewrite word).length = word.length) :
    wordsOf bytes count ((wordsOf bytes count data).map rewrite).flatten =
      (wordsOf bytes count data).map rewrite := by
  have hwords : ∀ word ∈ (wordsOf bytes count data).map rewrite, word.length = bytes := by
    intro word hword
    rcases List.mem_map.mp hword with ⟨stored, hstored, rfl⟩
    rw [hrewrite, length_of_mem_wordsOf hlength hstored]
  have hflatten := wordsOf_flatten hwords
  rwa [List.length_map, length_wordsOf] at hflatten

/-- The number of strings side by side is joined from their numbers. -/
theorem number_flatten (order : BitOrder) (words : List (List UInt8)) :
    number order words.flatten =
      joinAll order (words.map fun word => (8 * word.length, number order word)) := by
  induction words with
  | nil => cases order <;> rfl
  | cons word words ih =>
    have hbits : fieldBits (words.map fun word => (8 * word.length, number order word)) =
        8 * words.flatten.length := by
      rw [fieldBits, List.map_map, List.length_flatten, ← List.sum_map_mul_left]
      rfl
    rw [List.flatten_cons, number_append, ih, List.map_cons, joinAll, hbits]

namespace WordSize

/-- A group that has been begun is reversed with the bytes that complete it. -/
theorem reverseWords_complete {bytes : ℕ} {begun missing : List UInt8} (hmissing : missing ≠ [])
    (hlength : begun.length + missing.length = bytes) (rest : List UInt8) :
    reverseWords bytes begun (missing ++ rest) =
      missing.reverse ++ begun ++ reverseWords bytes [] rest := by
  induction missing generalizing begun with
  | nil => exact absurd rfl hmissing
  | cons byte missing ih =>
    rw [List.cons_append, reverseWords]
    cases missing with
    | nil =>
      simp only [List.length_cons, List.length_nil] at hlength
      rw [if_pos (by omega)]
      simp
    | cons next missing =>
      simp only [List.length_cons] at hlength
      rw [if_neg (by omega), ih (List.cons_ne_nil _ _) (by simp only [List.length_cons]; omega)]
      simp

/-- All whole words are reversed. -/
theorem reverseWords_eq_flatten {bytes count : ℕ} {data : List UInt8} (hbytes : 0 < bytes)
    (hlength : data.length = bytes * count) :
    reverseWords bytes [] data = ((wordsOf bytes count data).map List.reverse).flatten := by
  induction count generalizing data with
  | zero =>
    have hempty : data = [] := List.length_eq_zero_iff.mp (by simpa using hlength)
    simp [wordsOf, hempty, reverseWords]
  | succ count ih =>
    rw [Nat.mul_succ] at hlength
    have htake : (data.take bytes).length = bytes := by rw [List.length_take]; omega
    have hrest : reverseWords bytes [] (data.drop bytes) =
        ((wordsOf bytes count (data.drop bytes)).map List.reverse).flatten :=
      ih (by rw [List.length_drop]; omega)
    rw [wordsOf_succ, List.map_cons, List.flatten_cons, ← hrest]
    conv_lhs => rw [← List.take_append_drop bytes data]
    rw [reverseWords_complete (List.ne_nil_of_length_pos (by omega)) (by simpa using htake),
      List.append_nil]

/-- A word in the order in which it is wanted. -/
def orient (stored wanted : ByteOrder) (word : List UInt8) : List UInt8 :=
  if stored = wanted then word else word.reverse

/-- Orientation keeps the length. -/
@[simp]
theorem length_orient (stored wanted : ByteOrder) (word : List UInt8) :
    (orient stored wanted word).length = word.length := by
  unfold orient; split <;> simp

/-- Every word of a buffer is rewritten on its own. -/
theorem reorder_eq_flatten (size : WordSize) {count : ℕ} {data : List UInt8}
    (stored wanted : ByteOrder) (hlength : data.length = size.bytes * count) :
    size.reorder data stored wanted =
      ((wordsOf size.bytes count data).map (orient stored wanted)).flatten := by
  by_cases h : stored = wanted
  · have horient : orient stored wanted = id := funext fun word => if_pos h
    rw [reorder, if_pos h, horient, List.map_id, flatten_wordsOf hlength]
  · have horient : orient stored wanted = List.reverse := funext fun word => if_neg h
    rw [reorder, if_neg h, horient, reverseWords_eq_flatten size.bytes_pos hlength]

/-- Rewriting keeps the length. -/
theorem length_reorder (size : WordSize) {count : ℕ} {data : List UInt8}
    (stored wanted : ByteOrder) (hlength : data.length = size.bytes * count) :
    (size.reorder data stored wanted).length = size.bytes * count := by
  rw [size.reorder_eq_flatten stored wanted hlength, List.length_flatten, List.map_map,
    List.map_congr_left fun word hword => by
      rw [Function.comp_apply, length_orient, length_of_mem_wordsOf hlength hword]]
  simp [Nat.mul_comm]

/-- Rewriting loses nothing. -/
theorem reorder_injective (size : WordSize) {count : ℕ} {left right : List UInt8}
    (stored wanted : ByteOrder) (hleft : left.length = size.bytes * count)
    (hright : right.length = size.bytes * count)
    (h : size.reorder left stored wanted = size.reorder right stored wanted) : left = right := by
  have horient : Function.Injective (orient stored wanted) := by
    intro first second heq
    unfold orient at heq
    split at heq
    · exact heq
    · exact List.reverse_injective heq
  have hmaps := congrArg (wordsOf size.bytes count) h
  rw [size.reorder_eq_flatten _ _ hleft, size.reorder_eq_flatten _ _ hright,
    wordsOf_rewritten hleft (length_orient _ _), wordsOf_rewritten hright (length_orient _ _)]
    at hmaps
  rw [← flatten_wordsOf hleft, ← flatten_wordsOf hright,
    List.map_injective_iff.mpr horient hmaps]

/-- The bit reader sees a rewritten word as the value that was stored. -/
theorem number_orient (shift : Direction) (stored : ByteOrder) (word : List UInt8) :
    number shift.bitOrder (orient stored shift.byteOrder word) = stored.value word := by
  cases shift <;> cases stored <;>
    simp [Direction.bitOrder, Direction.byteOrder, orient, number, ByteOrder.value]

end WordSize

namespace ChunkPlan

/-- Bits of a word. -/
def wordBits (plan : ChunkPlan) : ℕ := 8 * plan.wordSize.bytes

/-- The value of a word of a buffer, in the declared byte order. -/
def wordValue (plan : ChunkPlan) (data : List UInt8) (index : ℕ) : ℕ :=
  plan.endian.value ((data.drop (index * plan.wordSize.bytes)).take plan.wordSize.bytes)

/-- The number that the words of a buffer form. -/
def number (plan : ChunkPlan) (data : List UInt8) : ℕ :=
  match plan.shift with
  | .left =>
    ∑ i ∈ Finset.range plan.countWords,
      plan.wordValue data i * 2 ^ (plan.wordBits * (plan.countWords - 1 - i))
  | .right =>
    ∑ i ∈ Finset.range plan.countWords, plan.wordValue data i * 2 ^ (plan.wordBits * i)

/-- The buffer whose words form a number. -/
def buffer (plan : ChunkPlan) (number : ℕ) : List UInt8 :=
  (List.range plan.countWords).flatMap fun index =>
    plan.endian.word plan.wordSize.bytes
      (bitField plan.shift.bitOrder plan.capacityBits number (index * plan.wordBits) plan.wordBits)

/-- The buffer with the bytes of every word reversed. -/
def reversedWords (plan : ChunkPlan) (data : List UInt8) : List UInt8 :=
  ((wordsOf plan.wordSize.bytes plan.countWords data).map List.reverse).flatten

end ChunkPlan

/-- Values of one width, joined from the left, are a sum with falling weights. -/
theorem joinAll_msbFirst_eq_sum (bits count : ℕ) (value : ℕ → ℕ) :
    joinAll .msbFirst ((List.range count).map fun i => (bits, value i)) =
      ∑ i ∈ Finset.range count, value i * 2 ^ (bits * (count - 1 - i)) := by
  induction count generalizing value with
  | zero => rfl
  | succ count ih =>
    have hbits : fieldBits ((List.range count).map fun i => (bits, value (i + 1))) =
        bits * count := by
      simp [fieldBits, List.map_map, Function.comp_def, Nat.mul_comm]
    rw [List.range_succ_eq_map, List.map_cons, List.map_map, joinAll, Finset.sum_range_succ']
    simp only [Function.comp_def, Nat.succ_eq_add_one]
    rw [ih fun i => value (i + 1), hbits, joinFields, Nat.add_comm]
    congr 1
    refine Finset.sum_congr rfl fun i _ => ?_
    rw [show count + 1 - 1 - (i + 1) = count - 1 - i by omega]

/-- Values of one width, joined from the right, are a sum with rising weights. -/
theorem joinAll_lsbFirst_eq_sum (bits count : ℕ) (value : ℕ → ℕ) :
    joinAll .lsbFirst ((List.range count).map fun i => (bits, value i)) =
      ∑ i ∈ Finset.range count, value i * 2 ^ (bits * i) := by
  induction count generalizing value with
  | zero => rfl
  | succ count ih =>
    rw [List.range_succ_eq_map, List.map_cons, List.map_map, joinAll, Finset.sum_range_succ']
    simp only [Function.comp_def, Nat.succ_eq_add_one]
    rw [ih fun i => value (i + 1), joinFields, Nat.mul_zero, pow_zero, Nat.mul_one, Nat.add_comm,
      Finset.sum_mul]
    congr 1
    refine Finset.sum_congr rfl fun i _ => ?_
    rw [Nat.mul_succ, pow_add, Nat.mul_assoc]

/-- Equal widths cut a number into runs at equal distances. -/
theorem splitAll_replicate (order : BitOrder) (capacity number start width count : ℕ) :
    splitAll order capacity number start (List.replicate count width) =
      (List.range count).map fun i =>
        bitField order capacity number (start + i * width) width := by
  induction count generalizing start with
  | zero => rfl
  | succ count ih =>
    rw [List.replicate_succ, splitAll, ih, List.range_succ_eq_map, List.map_cons, List.map_map,
      Nat.zero_mul, Nat.add_zero]
    simp only [Function.comp_def, Nat.succ_mul, Nat.succ_eq_add_one, Nat.add_assoc,
      Nat.add_comm width]

namespace ChunkPlan

variable (plan : ChunkPlan) {data : List UInt8}

/-- The bits of a chunk are the bits of its words. -/
theorem capacityBits_eq : plan.capacityBits = plan.countWords * plan.wordBits := by
  simp only [capacityBits, sizeBytes, wordBits]
  ring

/-- The number of a buffer is joined from the values of its words. -/
theorem number_eq_joinAll :
    plan.number data =
      joinAll plan.shift.bitOrder
        ((wordsOf plan.wordSize.bytes plan.countWords data).map fun word =>
          (plan.wordBits, plan.endian.value word)) := by
  rw [wordsOf, List.map_map]
  unfold number
  cases plan.shift with
  | left => exact (joinAll_msbFirst_eq_sum _ _ _).symm
  | right => exact (joinAll_lsbFirst_eq_sum _ _ _).symm

/-- The bit reader walks the number of the words. -/
theorem number_reorder (hdata : data.length = plan.sizeBytes) :
    BitReader.number plan.shift.bitOrder
      (plan.wordSize.reorder data plan.endian plan.shift.byteOrder) = plan.number data := by
  rw [plan.wordSize.reorder_eq_flatten _ _ hdata, number_flatten, number_eq_joinAll, List.map_map]
  congr 1
  refine List.map_congr_left fun word hword => ?_
  have hlength := length_of_mem_wordsOf hdata hword
  simp only [Function.comp_apply, WordSize.length_orient, WordSize.number_orient, wordBits,
    hlength]

/-- The number of a buffer fits into the bits of the chunk. -/
theorem number_lt (hdata : data.length = plan.sizeBytes) :
    plan.number data < 2 ^ plan.capacityBits := by
  have hlength : (plan.wordSize.reorder data plan.endian plan.shift.byteOrder).length =
      plan.sizeBytes := by
    rw [plan.wordSize.length_reorder _ _ hdata, sizeBytes]
  rw [← plan.number_reorder hdata, capacityBits, Nat.mul_comm, ← hlength]
  exact BitReader.number_lt ..

/-- A buffer is determined by its number. -/
theorem number_injective {left right : List UInt8} (hleft : left.length = plan.sizeBytes)
    (hright : right.length = plan.sizeBytes) (h : plan.number left = plan.number right) :
    left = right := by
  rw [← plan.number_reorder hleft, ← plan.number_reorder hright] at h
  have hreordered := BitReader.number_injective _
    (by rw [plan.wordSize.length_reorder _ _ hleft, plan.wordSize.length_reorder _ _ hright]) h
  exact plan.wordSize.reorder_injective _ _ hleft hright hreordered

/-- A made buffer has the size of the chunk. -/
theorem length_buffer (number : ℕ) : (plan.buffer number).length = plan.sizeBytes := by
  simp [buffer, sizeBytes, List.length_flatMap, Nat.mul_comm]

/-- The words of a made buffer. -/
theorem wordsOf_buffer (number : ℕ) :
    wordsOf plan.wordSize.bytes plan.countWords (plan.buffer number) =
      (List.range plan.countWords).map fun index =>
        plan.endian.word plan.wordSize.bytes
          (bitField plan.shift.bitOrder plan.capacityBits number (index * plan.wordBits)
            plan.wordBits) := by
  have hwords := @wordsOf_flatten plan.wordSize.bytes
    ((List.range plan.countWords).map fun index =>
      plan.endian.word plan.wordSize.bytes
        (bitField plan.shift.bitOrder plan.capacityBits number (index * plan.wordBits)
          plan.wordBits)) (by simp)
  rwa [List.length_map, List.length_range, ← List.flatMap_def] at hwords

/-- A made buffer has the number that it was made for. -/
theorem number_buffer {number : ℕ} (h : number < 2 ^ plan.capacityBits) :
    plan.number (plan.buffer number) = number := by
  have hcut := @joinAll_splitAll plan.shift.bitOrder plan.capacityBits number 0
    (List.replicate plan.countWords plan.wordBits)
    (by rw [List.sum_replicate_nat, capacityBits_eq, Nat.zero_add])
  rw [List.sum_replicate_nat, ← capacityBits_eq, bitField_whole _ h, splitAll_replicate] at hcut
  rw [number_eq_joinAll, wordsOf_buffer, List.map_map]
  nth_rewrite 2 [← hcut]
  congr 1
  refine List.ext_getElem (by simp) fun index hleft hright => ?_
  simp only [List.getElem_map, List.getElem_range, Function.comp_apply, List.getElem_zip,
    List.getElem_replicate, Nat.zero_add, Prod.mk.injEq, true_and]
  exact plan.endian.value_word (bitField_lt ..)

/-- The buffer made for a buffer's number is that buffer. -/
theorem buffer_number (hdata : data.length = plan.sizeBytes) :
    plan.buffer (plan.number data) = data :=
  plan.number_injective (plan.length_buffer _) hdata (plan.number_buffer (plan.number_lt hdata))

/-- Reversing the bytes of all words keeps the size. -/
theorem length_reversedWords (hdata : data.length = plan.sizeBytes) :
    (plan.reversedWords data).length = plan.sizeBytes := by
  have hreorder := plan.wordSize.length_reorder .big .little hdata
  rwa [plan.wordSize.reorder_eq_flatten .big .little hdata] at hreorder

/-- Reversed words have the same number in the opposite byte order. -/
theorem number_reversedWords (hdata : data.length = plan.sizeBytes) :
    number { plan with endian := plan.endian.opposite } (plan.reversedWords data) =
      plan.number data := by
  have hwords : wordsOf plan.wordSize.bytes plan.countWords (plan.reversedWords data) =
      (wordsOf plan.wordSize.bytes plan.countWords data).map List.reverse :=
    wordsOf_rewritten hdata fun _ => List.length_reverse
  rw [number_eq_joinAll, number_eq_joinAll, hwords, List.map_map]
  simp only [Function.comp_def, ByteOrder.value_opposite_reverse, wordBits]

end ChunkPlan

end SampleDemux
