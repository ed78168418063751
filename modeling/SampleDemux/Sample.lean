/-!
# Samples

A decoded sample is one value or a pair of values. Pairs are in (in-phase, quadrature) order, and a
component that is stored negated has its own sign back.
-/

namespace SampleDemux

/-- One decoded sample. -/
inductive Sample where
  /-- A real sample. -/
  | real (value : Float)
  /-- A complex sample. -/
  | complex (i q : Float)
  deriving DecidableEq, Inhabited

namespace Sample

/-- The in-phase component; a real sample is its own. -/
def inPhase : Sample → Float
  | real value => value
  | complex i _ => i

/-- The quadrature component of a complex sample. -/
def quadrature? : Sample → Option Float
  | real _ => none
  | complex _ q => some q

/-- Whether the sample has two components. -/
def isComplex : Sample → Bool
  | real _ => false
  | complex .. => true

end Sample

end SampleDemux
