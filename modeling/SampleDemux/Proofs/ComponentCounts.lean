import SampleDemux.Sink.Statistics
import SampleDemux.Proofs.CatalogOrder

/-!
# What statistics count

A statistics sink counts every component of its samples once. The two components are kept apart:
each has the statistics of its own values in order, and there are none of the quadrature component
as long as all samples are real. Where a histogram is kept, it has one entry for every whole part
that came, with the number of values that have this whole part.
-/

namespace SampleDemux

namespace Catalog

variable {κ : Type} [DecidableEq κ] [LT κ] [DecidableLT κ]

/-- Counting once more adds one to all counts together. -/
theorem sum_values_alter (catalog : Catalog κ ℕ) (key : κ) :
    (catalog.alter key fun count => count.getD 0 + 1).values.sum = catalog.values.sum + 1 := by
  rcases catalog with ⟨entries⟩
  simp only [alter, values]
  induction entries with
  | nil => rfl
  | cons entry entries ih =>
    rcases entry with ⟨other, count⟩
    rw [alterEntries]
    split
    · simp only [List.map_cons, List.sum_cons, Option.getD_some]
      omega
    split
    · simp only [List.map_cons, List.sum_cons, Option.getD_none]
      omega
    · simp only [List.map_cons, List.sum_cons, ih]
      omega

end Catalog

namespace ComponentStatistics

/-- Statistics of values in order. -/
def ofList (counted : Bool) (values : List Float) : ComponentStatistics :=
  values.foldl (fun statistics value => statistics.push value counted) {}

/-- Statistics of values in order, once there is one. -/
def ofList? (counted : Bool) (values : List Float) : Option ComponentStatistics :=
  if values.isEmpty then none else some (ofList counted values)

variable {counted : Bool} {values : List Float}

/-- The last value is taken in after the others. -/
theorem ofList_concat (value : Float) :
    ofList counted (values ++ [value]) = (ofList counted values).push value counted :=
  List.foldl_concat ..

/-- The last value is taken in after the others, and without others into new statistics. -/
theorem ofList?_concat (value : Float) :
    ofList? counted (values ++ [value]) =
      some (((ofList? counted values).getD {}).push value counted) := by
  rw [ofList?, if_neg (by simp), ofList_concat]
  cases values with
  | nil => rfl
  | cons first rest => rfl

/-- There are statistics of values if and only if there are values. -/
theorem isSome_ofList? : (ofList? counted values).isSome ↔ values ≠ [] := by
  cases values with
  | nil => simp [ofList?]
  | cons first rest => simp [ofList?]

/-- Statistics of values that there may be are statistics of values. -/
theorem eq_ofList_of_ofList? {statistics : ComponentStatistics}
    (h : ofList? counted values = some statistics) : statistics = ofList counted values := by
  rw [ofList?] at h
  split at h
  · cases h
  · exact (Option.some.inj h).symm

/-- Every value is counted. -/
theorem count_ofList : (ofList counted values).moments.count = values.length := by
  induction values using List.reverseRecOn with
  | nil => rfl
  | append_singleton values value ih =>
    rw [ofList_concat, List.length_append, ← ih]
    rfl

/-- Without counting there is no histogram. -/
theorem histogram_ofList_uncounted : (ofList false values).histogram.entries = [] := by
  induction values using List.reverseRecOn with
  | nil => rfl
  | append_singleton values value ih =>
    rw [ofList_concat]
    exact ih

/-- The histogram tallies values: it has an entry for every whole part that came, and no other. -/
structure Tallies (statistics : ComponentStatistics) (values : List Float) : Prop where
  /-- The whole parts ascend, so each has one entry at most. -/
  ascending : statistics.histogram.Ascending
  /-- The entry of a whole part says how many values have it, if there are any. -/
  mem_entries : ∀ whole count, (whole, count) ∈ statistics.histogram.entries ↔
    count = values.countP (key · = whole) ∧ 0 < count
  /-- All entries together count every value. -/
  sum_values : statistics.histogram.values.sum = statistics.moments.count

/-- A histogram that is empty tallies no values. -/
theorem tallies_nil : ({} : ComponentStatistics).Tallies [] where
  ascending := Catalog.ascending_empty
  mem_entries whole count := by
    constructor
    · intro h
      cases h
    · rintro ⟨rfl, hpos⟩
      cases hpos
  sum_values := rfl

/-- A tally finds how many values have a whole part. -/
theorem Tallies.find?_getD {statistics : ComponentStatistics} (h : statistics.Tallies values)
    (whole : ℤ) :
    (statistics.histogram.find? whole).getD 0 = values.countP (key · = whole) := by
  cases hfound : statistics.histogram.find? whole with
  | some count => exact ((h.mem_entries whole count).mp (h.ascending.mem_iff.mpr hfound)).1
  | none =>
    by_contra hcount
    have hmem := (h.mem_entries whole _).mpr ⟨rfl, Nat.pos_of_ne_zero (Ne.symm hcount)⟩
    rw [h.ascending.mem_iff, hfound] at hmem
    cases hmem

/-- Counting one more value keeps the tally. -/
theorem Tallies.push {statistics : ComponentStatistics} (h : statistics.Tallies values)
    (value : Float) : (statistics.push value true).Tallies (values ++ [value]) := by
  have hinsert : (statistics.push value true).histogram =
      statistics.histogram.insert (key value) (values.countP (key · = key value) + 1) := by
    rw [← h.find?_getD (key value)]
    exact h.ascending.alter_congr rfl
  have hascending : (statistics.push value true).histogram.Ascending := h.ascending.alter _ _
  refine ⟨hascending, fun whole count => ?_, ?_⟩
  · rw [hascending.mem_iff, hinsert, List.countP_append, List.countP_singleton]
    by_cases hwhole : whole = key value
    · rw [hwhole, Catalog.find?_insert_self, if_pos (by simp), Option.some_inj]
      omega
    · rw [Catalog.find?_insert_of_ne _ hwhole, ← h.ascending.mem_iff, h.mem_entries,
        if_neg (by simpa using Ne.symm hwhole), Nat.add_zero]
  · exact (Catalog.sum_values_alter _ _).trans (congrArg (· + 1) h.sum_values)

/-- The histogram of counted values tallies them. -/
theorem tallies_ofList : (ofList true values).Tallies values := by
  induction values using List.reverseRecOn with
  | nil => exact tallies_nil
  | append_singleton values value ih =>
    rw [ofList_concat]
    exact ih.push value

end ComponentStatistics

namespace StatisticsSink

/-- What a new sink keeps after samples of one stream. -/
def ofSamples (record : StreamRecord) (samples : List Sample) : StatisticsSink :=
  samples.foldl (fun sink sample => sink.push sample record) {}

/-- Each component has the statistics of its own values. -/
theorem ofSamples_eq (record : StreamRecord) (samples : List Sample) :
    ofSamples record samples =
      { inPhase := .ofList (keepsHistogram record) (samples.map (·.inPhase))
        quadrature :=
          ComponentStatistics.ofList? (keepsHistogram record)
            (samples.filterMap (·.quadrature?)) } := by
  induction samples using List.reverseRecOn with
  | nil => rfl
  | append_singleton samples sample ih =>
    rw [ofSamples, List.foldl_concat, ← ofSamples, ih, List.map_append, List.filterMap_append]
    cases sample with
    | real value =>
      simp only [push, List.map_cons, List.map_nil, ComponentStatistics.ofList_concat]
      simp only [Sample.quadrature?, List.filterMap_cons, List.filterMap_nil, List.append_nil]
    | complex i q =>
      simp only [push, List.map_cons, List.map_nil, ComponentStatistics.ofList_concat]
      simp only [Sample.quadrature?, List.filterMap_cons, List.filterMap_nil,
        ComponentStatistics.ofList?_concat]

/-- A sample has a quadrature component if and only if it is complex. -/
theorem length_filterMap_quadrature (samples : List Sample) :
    (samples.filterMap (·.quadrature?)).length = samples.countP (·.isComplex) := by
  induction samples with
  | nil => rfl
  | cons sample samples ih =>
    cases sample with
    | real value =>
      rw [List.filterMap_cons_none rfl, ih, List.countP_cons_of_neg Bool.false_ne_true]
    | complex i q =>
      rw [List.countP_cons_of_pos rfl, ← ih]
      rfl

/-- What the statistics of a stream count of some samples. -/
structure CountsComponents (record : StreamRecord) (samples : List Sample) : Prop where
  /-- The in-phase component counts all samples. -/
  inPhase : (ofSamples record samples).inPhase.moments.count = samples.length
  /-- There are statistics of the quadrature component if and only if a sample was complex. -/
  quadrature_iff : (ofSamples record samples).quadrature.isSome ↔
    ∃ sample ∈ samples, sample.isComplex
  /-- They count the complex samples. -/
  quadrature : ∀ quadrature, (ofSamples record samples).quadrature = some quadrature →
    quadrature.moments.count = samples.countP (·.isComplex)
  /-- The histograms tally the values of their components if the components are integers of at most
  16 bits. -/
  tallies : record.encoding ≠ .float ∧ record.quantization ≤ 16 →
    (ofSamples record samples).inPhase.Tallies (samples.map (·.inPhase)) ∧
    ∀ quadrature, (ofSamples record samples).quadrature = some quadrature →
      quadrature.Tallies (samples.filterMap (·.quadrature?))
  /-- Otherwise they are empty. -/
  empty : ¬ (record.encoding ≠ .float ∧ record.quantization ≤ 16) →
    (ofSamples record samples).inPhase.histogram.entries = [] ∧
    ∀ quadrature, (ofSamples record samples).quadrature = some quadrature →
      quadrature.histogram.entries = []

/-- The statistics of a stream count the components of all its samples. -/
theorem ofSamples_counts_components (record : StreamRecord) (samples : List Sample) :
    CountsComponents record samples := by
  constructor
  case inPhase => rw [ofSamples_eq, ComponentStatistics.count_ofList, List.length_map]
  case quadrature_iff =>
    rw [ofSamples_eq, ComponentStatistics.isSome_ofList?, ← List.length_pos_iff,
      length_filterMap_quadrature]
    exact List.countP_pos_iff
  case quadrature =>
    rw [ofSamples_eq]
    intro quadrature hquadrature
    rw [ComponentStatistics.eq_ofList_of_ofList? hquadrature, ComponentStatistics.count_ofList,
      length_filterMap_quadrature]
  case tallies =>
    intro hnarrow
    have hkeeps : keepsHistogram record = true := decide_eq_true hnarrow
    rw [ofSamples_eq, hkeeps]
    refine ⟨ComponentStatistics.tallies_ofList, fun quadrature hquadrature => ?_⟩
    rw [ComponentStatistics.eq_ofList_of_ofList? hquadrature]
    exact ComponentStatistics.tallies_ofList
  case empty =>
    intro hwide
    have hkeeps : keepsHistogram record = false := decide_eq_false hwide
    rw [ofSamples_eq, hkeeps]
    refine ⟨ComponentStatistics.histogram_ofList_uncounted, fun quadrature hquadrature => ?_⟩
    rw [ComponentStatistics.eq_ofList_of_ofList? hquadrature]
    exact ComponentStatistics.histogram_ofList_uncounted

/-- A record of a stream whose components have two bits. -/
def twoBitRecord : StreamRecord := { (default : StreamRecord) with quantization := 2 }

/-- Real and complex samples by turns. -/
def mixedSamples : List Sample := [.complex 1 (-1), .real 3, .complex (-3) 1]

/-- Of three samples two are complex, and both histograms count every component. -/
theorem ofSamples_counts_components_of_mixedSamples :
    (ofSamples twoBitRecord mixedSamples).inPhase.moments.count = 3 ∧
    (ofSamples twoBitRecord mixedSamples).inPhase.histogram.values.sum = 3 ∧
    ∃ quadrature, (ofSamples twoBitRecord mixedSamples).quadrature = some quadrature ∧
      quadrature.moments.count = 2 ∧ quadrature.histogram.values.sum = 2 := by
  have hcounts := ofSamples_counts_components twoBitRecord mixedSamples
  have htallies := hcounts.tallies (by decide)
  obtain ⟨quadrature, hsome⟩ :=
    Option.isSome_iff_exists.mp (hcounts.quadrature_iff.mpr ⟨_, List.mem_cons_self, rfl⟩)
  have hquadrature := hcounts.quadrature quadrature hsome
  exact ⟨hcounts.inPhase, htallies.1.sum_values.trans hcounts.inPhase, quadrature, hsome,
    hquadrature, (htallies.2 quadrature hsome).sum_values.trans hquadrature⟩

end StatisticsSink

end SampleDemux
