namespace DyadicFourier

/-- The arithmetic that a transform uses. No law is asked of it, so rounded numbers qualify. -/
class Scalar (α : Type) extends Add α, Sub α, Mul α, Neg α where
  zero : α
  two : α

instance : Scalar Float32 where
  zero := 0
  two := 2

end DyadicFourier
