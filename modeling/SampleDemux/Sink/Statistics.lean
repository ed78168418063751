import SampleDemux.Dyadic
import SampleDemux.Registry

/-!
# Running statistics

A statistics sink keeps, for each component of its samples, a count, the mean, the population
variance, the extremes and a histogram. Mean and variance are updated with every value: the
deviation from the old mean moves the mean, and its product with the deviation from the new mean is
added to the sum of squared deviations. The update is stated for any kind of number.
-/

namespace SampleDemux

/-- Numbers of which moments are kept. -/
class Measured (α : Type) extends Add α, Sub α, Mul α, Div α where
  /-- A count as a number. -/
  ofCount : Nat → α
  /-- The lesser one of two numbers. -/
  lesser : α → α → α
  /-- The greater one of two numbers. -/
  greater : α → α → α

/-- On floating-point numbers the lesser and the greater one of equal numbers is the first, and a
number goes before no number. -/
instance : Measured Float where
  ofCount := Float.ofNat
  lesser a b := if a.isNaN then b else if b < a then b else a
  greater a b := if a.isNaN then b else if a < b then b else a

/-- Moments and extremes of the values so far. -/
structure Moments (α : Type) where
  /-- Number of values. -/
  count : Nat
  /-- Mean of the values. -/
  mean : α
  /-- Population variance of the values. -/
  variance : α
  /-- Sum of the squared deviations from the mean. -/
  deviations : α
  /-- The least value. -/
  least : α
  /-- The greatest value. -/
  greatest : α
  deriving DecidableEq

namespace Moments

variable {α : Type} [Measured α]

/-- The moments of no values. -/
def empty : Moments α :=
  let zero := Measured.ofCount 0
  ⟨0, zero, zero, zero, zero, zero⟩

instance : Inhabited (Moments α) := ⟨empty⟩

/-- Takes one more value in. -/
def push (moments : Moments α) (value : α) : Moments α :=
  let count := moments.count + 1
  let delta := value - moments.mean
  let mean := moments.mean + delta / Measured.ofCount count
  let deviations := moments.deviations + delta * (value - mean)
  { count, mean, deviations
    variance := deviations / Measured.ofCount count
    least := if moments.count = 0 then value else Measured.lesser moments.least value
    greatest := if moments.count = 0 then value else Measured.greater moments.greatest value }

/-- The moments of values in order. -/
def ofList (values : List α) : Moments α := values.foldl push empty

end Moments

/-- Statistics of one component. -/
structure ComponentStatistics where
  /-- Moments and extremes. -/
  moments : Moments Float := .empty
  /-- How often each whole part came. -/
  histogram : Catalog Int Nat := {}
  deriving DecidableEq, Inhabited

namespace ComponentStatistics

/-- The histogram's key of a value: its whole part as a 64-bit integer. -/
def key (value : Float) : Int := truncateBetween (-0x8000000000000000) 0x7fffffffffffffff value

/-- Takes one more value in, and counts it in the histogram if one is kept. -/
def push (statistics : ComponentStatistics) (value : Float) (counted : Bool) :
    ComponentStatistics where
  moments := statistics.moments.push value
  histogram :=
    if counted then statistics.histogram.alter (key value) fun count => count.getD 0 + 1
    else statistics.histogram

/-- The statistics without the histogram. -/
def withoutHistogram (statistics : ComponentStatistics) : ComponentStatistics :=
  { statistics with histogram := {} }

end ComponentStatistics

/-- What a statistics sink keeps. -/
structure StatisticsSink where
  /-- Of the in-phase components. -/
  inPhase : ComponentStatistics := {}
  /-- Of the quadrature components, once there was one. -/
  quadrature : Option ComponentStatistics := none
  deriving DecidableEq, Inhabited

/-- Widest component of which a histogram is kept. -/
def histogramMaxBits : Nat := 16

namespace StatisticsSink

/-- Whether a histogram is kept for a stream: its components are narrow integers. -/
def keepsHistogram (record : StreamRecord) : Bool :=
  record.encoding ≠ .float ∧ record.quantization ≤ histogramMaxBits

/-- Takes one sample in. -/
def push (sink : StatisticsSink) (sample : Sample) (record : StreamRecord) : StatisticsSink where
  inPhase := sink.inPhase.push sample.inPhase (keepsHistogram record)
  quadrature :=
    match sample.quadrature? with
    | none => sink.quadrature
    | some q => some ((sink.quadrature.getD {}).push q (keepsHistogram record))

/-- The statistics without histograms. -/
def withoutHistogram (sink : StatisticsSink) : StatisticsSink where
  inPhase := sink.inPhase.withoutHistogram
  quadrature := sink.quadrature.map (·.withoutHistogram)

/-- Statistics sinks share nothing and never refuse a sample. -/
def kind : SinkKind Unit StatisticsSink where
  create _ world := (.ok {}, world)
  consume sink sample record world := (.accepted, sink.push sample record, world)
  finish sink world := (.ok (), sink, world)

end StatisticsSink

end SampleDemux
