/-!
# Rounding quotients

A quotient of natural numbers is rounded to the nearest whole number. A tie rule says which of two
whole numbers at the same distance is taken.
-/

namespace SampleDemux

/-- Which of two whole numbers at the same distance is taken. -/
inductive Tie where
  /-- The even one. -/
  | toEven
  /-- The larger one. -/
  | upward
  deriving DecidableEq, Repr

/-- The whole number nearest to a quotient. -/
def roundQuotient (tie : Tie) (numerator denominator : Nat) : Nat :=
  let below := numerator / denominator
  let excess := 2 * (numerator % denominator)
  if excess < denominator then below
  else if denominator < excess then below + 1
  else
    match tie with
    | .toEven => below + below % 2
    | .upward => below + 1

end SampleDemux
