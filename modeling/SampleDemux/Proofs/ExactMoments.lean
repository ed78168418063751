import SampleDemux.Proofs.ComponentCounts
import Mathlib.Algebra.BigOperators.Group.List.Basic
import Mathlib.Algebra.Order.BigOperators.Group.List
import Mathlib.Algebra.Order.Field.Rat
import Mathlib.Order.Bounds.Basic
import Mathlib.Tactic.FieldSimp
import Mathlib.Tactic.NormNum
import Mathlib.Tactic.Positivity
import Mathlib.Tactic.Ring

/-!
# Moments of exact numbers

The update of running moments is stated for any kind of number, and statistics sinks run it on
floating-point numbers. On rational numbers, where nothing is rounded, it computes what it is meant
to: the mean, the population variance and the extremes of the values so far. The product of the
deviations from the old and from the new mean is what the sum of squared deviations grows by when
the mean moves; what floating-point numbers lose on the way is left open.
-/

namespace SampleDemux

/-- Rational numbers are measured exactly. -/
instance : Measured ℚ where
  ofCount count := count
  lesser := min
  greater := max

/-- The sum of the squared deviations of values from a number. -/
def squaredDeviations (values : List ℚ) (centre : ℚ) : ℚ :=
  (values.map fun value => (value - centre) ^ 2).sum

/-- One more value adds its own squared deviation. -/
theorem squaredDeviations_concat (values : List ℚ) (value centre : ℚ) :
    squaredDeviations (values ++ [value]) centre =
      squaredDeviations values centre + (value - centre) ^ 2 := by
  rw [squaredDeviations, List.map_append, List.sum_append, List.map_singleton, List.sum_singleton]
  rfl

/-- Squared deviations are not negative. -/
theorem squaredDeviations_nonneg (values : List ℚ) (centre : ℚ) :
    0 ≤ squaredDeviations values centre := by
  refine List.sum_nonneg fun square hsquare => ?_
  obtain ⟨value, -, rfl⟩ := List.mem_map.mp hsquare
  positivity

/-- Deviations from another number are expanded: their squares differ by a term that is linear in
the sum of the values. -/
theorem squaredDeviations_add (values : List ℚ) (centre shift : ℚ) :
    squaredDeviations values (centre + shift) =
      squaredDeviations values centre - 2 * shift * (values.sum - values.length * centre) +
        values.length * shift ^ 2 := by
  induction values with
  | nil => simp [squaredDeviations]
  | cons value values ih =>
    simp only [squaredDeviations, List.map_cons, List.sum_cons, List.length_cons] at ih ⊢
    rw [ih]
    push_cast
    ring

namespace Moments

/-- Moments that are those of values. Of no values they are all zero. -/
structure Describes (moments : Moments ℚ) (values : List ℚ) : Prop where
  /-- Every value is counted. -/
  count : moments.count = values.length
  /-- The mean is the values' share of their sum. -/
  sum : values.length * moments.mean = values.sum
  /-- The squared deviations are taken from the mean. -/
  deviations : moments.deviations = squaredDeviations values moments.mean
  /-- The variance is the mean of the squared deviations. -/
  variance : moments.variance = moments.deviations / values.length
  /-- The least one is the least of the values, if there are any. -/
  least : values ≠ [] → IsLeast {value | value ∈ values} moments.least
  /-- The greatest one is the greatest of the values, if there are any. -/
  greatest : values ≠ [] → IsGreatest {value | value ∈ values} moments.greatest

/-- The empty moments are those of no values. -/
theorem describes_empty : (empty : Moments ℚ).Describes [] where
  count := rfl
  sum := by simp
  deviations := rfl
  variance := by simp only [List.length_nil, Nat.cast_zero, div_zero]; rfl
  least h := absurd rfl h
  greatest h := absurd rfl h

/-- The last value is taken in after the others. -/
theorem ofList_concat {α : Type} [Measured α] (values : List α) (value : α) :
    ofList (values ++ [value]) = (ofList values).push value :=
  List.foldl_concat ..

section Push

variable {moments : Moments ℚ} {values : List ℚ}

/-- The mean moves by the share that the new value has in its deviation from the old mean. -/
theorem push_mean (moments : Moments ℚ) (value : ℚ) :
    (moments.push value).mean =
      moments.mean + (value - moments.mean) / ((moments.count + 1 : ℕ) : ℚ) := rfl

/-- The squared deviations grow by the product of the deviations from the old and the new mean. -/
theorem push_deviations (moments : Moments ℚ) (value : ℚ) :
    (moments.push value).deviations =
      moments.deviations + (value - moments.mean) * (value - (moments.push value).mean) := rfl

/-- With one more value the mean is again the values' share of their sum. -/
theorem Describes.sum_push (h : moments.Describes values) (value : ℚ) :
    ((values ++ [value]).length : ℚ) * (moments.push value).mean = (values ++ [value]).sum := by
  have hlength : ((values ++ [value]).length : ℚ) = values.length + 1 := by simp
  have hcount : ((moments.count + 1 : ℕ) : ℚ) = values.length + 1 := by rw [h.count]; push_cast; rfl
  have hpositive : (values.length + 1 : ℚ) ≠ 0 := by positivity
  rw [hlength, push_mean, hcount, List.sum_append, List.sum_singleton, ← h.sum]
  field_simp
  ring

/-- With one more value the squared deviations are those from the new mean. The deviations from the
old mean sum up to 0, so moving the centre adds the squared distance for every old value; this and
the new value's square make up the product that was added. -/
theorem Describes.deviations_push (h : moments.Describes values) (value : ℚ) :
    (moments.push value).deviations =
      squaredDeviations (values ++ [value]) (moments.push value).mean := by
  have hcount : ((moments.count + 1 : ℕ) : ℚ) = values.length + 1 := by rw [h.count]; push_cast; rfl
  have hpositive : (values.length + 1 : ℚ) ≠ 0 := by positivity
  have hbalanced : values.sum - values.length * moments.mean = 0 := by rw [h.sum, sub_self]
  rw [push_deviations, squaredDeviations_concat, push_mean, squaredDeviations_add, hbalanced,
    h.deviations, hcount]
  generalize squaredDeviations values moments.mean = squares
  field_simp
  ring

/-- The members of values with one more at the end. -/
theorem members_concat (values : List ℚ) (value : ℚ) :
    {member | member ∈ values ++ [value]} = insert value {member | member ∈ values} := by
  ext member
  rw [Set.mem_insert_iff, or_comm]
  exact List.mem_append.trans (or_congr_right List.mem_singleton)

/-- With one more value the least one is again the least of the values. -/
theorem Describes.least_push (h : moments.Describes values) (value : ℚ) :
    IsLeast {member | member ∈ values ++ [value]} (moments.push value).least := by
  rw [members_concat]
  by_cases hvalues : values = []
  · have hfirst : (moments.push value).least = value := if_pos (by rw [h.count, hvalues]; rfl)
    rw [hfirst, hvalues]
    simp [IsLeast, lowerBounds]
  · have hfurther : (moments.push value).least = min moments.least value :=
      if_neg (by rw [h.count]; simpa using hvalues)
    rw [hfurther, min_comm]
    exact (h.least hvalues).insert value

/-- With one more value the greatest one is again the greatest of the values. -/
theorem Describes.greatest_push (h : moments.Describes values) (value : ℚ) :
    IsGreatest {member | member ∈ values ++ [value]} (moments.push value).greatest := by
  rw [members_concat]
  by_cases hvalues : values = []
  · have hfirst : (moments.push value).greatest = value := if_pos (by rw [h.count, hvalues]; rfl)
    rw [hfirst, hvalues]
    simp [IsGreatest, upperBounds]
  · have hfurther : (moments.push value).greatest = max moments.greatest value :=
      if_neg (by rw [h.count]; simpa using hvalues)
    rw [hfurther, max_comm]
    exact (h.greatest hvalues).insert value

/-- One more value is described by the updated moments. -/
theorem Describes.push (h : moments.Describes values) (value : ℚ) :
    (moments.push value).Describes (values ++ [value]) where
  count := by
    rw [List.length_append, List.length_singleton, ← h.count]
    rfl
  sum := h.sum_push value
  deviations := h.deviations_push value
  variance := by
    rw [List.length_append, List.length_singleton, ← h.count]
    rfl
  least _ := h.least_push value
  greatest _ := h.greatest_push value

/-- After values in any order the moments are theirs. -/
theorem describes_ofList (values : List ℚ) : (ofList values).Describes values := by
  induction values using List.reverseRecOn with
  | nil => exact describes_empty
  | append_singleton values value ih =>
    rw [ofList_concat]
    exact ih.push value

/-- Values have one description at most, and it does not depend on their order. -/
theorem Describes.eq_of_perm {others : List ℚ} {further : Moments ℚ} (h : moments.Describes values)
    (hfurther : further.Describes others) (hperm : values.Perm others) (hvalues : values ≠ []) :
    moments = further := by
  have hothers : others ≠ [] := fun hnil => hvalues (hnil ▸ hperm).eq_nil
  have hlength : values.length = others.length := hperm.length_eq
  have hmembers : {value | value ∈ values} = {value | value ∈ others} :=
    Set.ext fun value => hperm.mem_iff
  have hcount : moments.count = further.count := by rw [h.count, hfurther.count, hlength]
  have hmean : moments.mean = further.mean := by
    have hpositive : (others.length : ℚ) ≠ 0 :=
      Nat.cast_ne_zero.mpr fun hzero => hothers (List.length_eq_zero_iff.mp hzero)
    refine mul_left_cancel₀ hpositive ?_
    rw [hfurther.sum, ← hlength, h.sum, hperm.sum_eq]
  have hdeviations : moments.deviations = further.deviations := by
    rw [h.deviations, hfurther.deviations, hmean]
    exact (hperm.map _).sum_eq
  have hvariance : moments.variance = further.variance := by
    rw [h.variance, hfurther.variance, hdeviations, hlength]
  have hleast : moments.least = further.least :=
    (h.least hvalues).unique (hmembers ▸ hfurther.least hothers)
  have hgreatest : moments.greatest = further.greatest :=
    (h.greatest hvalues).unique (hmembers ▸ hfurther.greatest hothers)
  cases moments
  cases further
  simp only at hcount hmean hdeviations hvariance hleast hgreatest
  subst hcount hmean hdeviations hvariance hleast hgreatest
  rfl

end Push

/-- The moments of a component are updated as those of any numbers. -/
theorem moments_ofList (counted : Bool) (numbers : List Float) :
    (ComponentStatistics.ofList counted numbers).moments = ofList numbers := by
  induction numbers using List.reverseRecOn with
  | nil => rfl
  | append_singleton numbers number ih =>
    rw [ComponentStatistics.ofList_concat, ofList_concat, ← ih]
    rfl

/-- What the update that a component's moments go through computes of some rational numbers. -/
structure IsExact (values : List ℚ) : Prop where
  /-- It is the update of a component's moments. -/
  moments_eq : ∀ counted numbers,
    (ComponentStatistics.ofList counted numbers).moments = ofList numbers
  /-- The values are counted. -/
  count : (ofList values).count = values.length
  /-- The mean is that of the values. -/
  mean : (ofList values).mean = values.sum / values.length
  /-- The deviations are the sum of the squared deviations from it. -/
  deviations : (ofList values).deviations =
    (values.map fun value => (value - (ofList values).mean) ^ 2).sum
  /-- The variance is that of the population. -/
  variance : (ofList values).variance = (ofList values).deviations / values.length
  /-- It is not negative. -/
  variance_nonneg : 0 ≤ (ofList values).variance
  /-- The least value is found. -/
  least : IsLeast {value | value ∈ values} (ofList values).least
  /-- The greatest value is found. -/
  greatest : IsGreatest {value | value ∈ values} (ofList values).greatest
  /-- Nothing depends on the order of the values. -/
  perm : ∀ others, values.Perm others → ofList others = ofList values

/-- The update that a component's moments go through is exact on rational numbers. -/
theorem ofList_exact {values : List ℚ} (hvalues : values ≠ []) : IsExact values := by
  have hdescribes := describes_ofList values
  have hpositive : (0 : ℚ) < values.length :=
    Nat.cast_pos.mpr (List.length_pos_iff.mpr hvalues)
  have hmean : (ofList values).mean = values.sum / values.length := by
    rw [eq_div_iff hpositive.ne', mul_comm]
    exact hdescribes.sum
  have hvariance : 0 ≤ (ofList values).variance := by
    rw [hdescribes.variance, hdescribes.deviations]
    exact div_nonneg (squaredDeviations_nonneg _ _) hpositive.le
  exact
    { moments_eq := moments_ofList
      count := hdescribes.count
      mean := hmean
      deviations := hdescribes.deviations
      variance := hdescribes.variance
      variance_nonneg := hvariance
      least := hdescribes.least hvalues
      greatest := hdescribes.greatest hvalues
      perm := fun others hperm =>
        (hdescribes.eq_of_perm (describes_ofList others) hperm hvalues).symm }

/-- Five values whose mean is a fifth, also when the last one comes first. -/
theorem ofList_exact_of_fiveValues :
    (ofList [1, -1, 3, -3, 1]).mean = (1 / 5 : ℚ) ∧
    (ofList [1, -1, 3, -3, 1]).variance = (104 / 25 : ℚ) ∧
    ofList [-3, 1, -1, 3, 1] = ofList [(1 : ℚ), -1, 3, -3, 1] := by
  have hexact := ofList_exact (List.cons_ne_nil (1 : ℚ) [-1, 3, -3, 1])
  have hfifth : (ofList [1, -1, 3, -3, 1]).mean = (1 / 5 : ℚ) := by
    rw [hexact.mean]
    norm_num
  refine ⟨hfifth, ?_, hexact.perm _ (by decide)⟩
  rw [hexact.variance, hexact.deviations, hfifth]
  norm_num

end Moments

end SampleDemux
