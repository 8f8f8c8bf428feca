import DyadicFourier.Lanes

namespace DyadicFourier

inductive Kernel where
  | rows
  | lanes
  deriving DecidableEq, Repr

namespace Kernel

/-- The vector unit is part of the machine's baseline, so it is always found. -/
def probe : Option Kernel := some .lanes

def vectorSupported : Bool := probe.isSome

def select (vectorAllowed : Bool) : Kernel :=
  if vectorAllowed then probe.getD .rows else .rows

def isVector : Kernel → Bool
  | .rows => false
  | .lanes => true

def name : Kernel → String
  | .rows => "Scalar"
  | .lanes => "Sse2"

def combine {α : Type} [Scalar α] : Kernel → Twiddles α → Nat → Array (Cplx α) →
    Checked (Array (Cplx α))
  | .rows => Rows.combine
  | .lanes => Lanes.combine

end Kernel

end DyadicFourier
