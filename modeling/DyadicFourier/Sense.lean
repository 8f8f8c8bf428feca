namespace DyadicFourier

/-- The sign of the exponent: a forward transform sums with `exp(-2πi)`, an inverse one with
`exp(+2πi)`. -/
inductive Sense where
  | forward
  | inverse
  deriving DecidableEq, Repr

inductive Direction where
  | forward
  | inverse
  | both
  deriving DecidableEq, Repr

instance : Inhabited Direction := ⟨.forward⟩

namespace Direction

def supports : Direction → Sense → Bool
  | .both, _ => true
  | .forward, s => s == .forward
  | .inverse, s => s == .inverse

/-- Only a context that serves the inverse alone keeps its table in the inverse sense. -/
def tableSense : Direction → Sense
  | .inverse => .inverse
  | _ => .forward

def name : Direction → String
  | .forward => "Forward"
  | .inverse => "Inverse"
  | .both => "Both"

end Direction

end DyadicFourier
