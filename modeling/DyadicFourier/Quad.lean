import DyadicFourier.Cells
import DyadicFourier.Cplx

namespace DyadicFourier

structure Quad (α : Type) where
  a : α
  b : α
  c : α
  d : α
  deriving DecidableEq, Repr

namespace Quad

variable {α : Type}

def map (f : α → α) (x : Quad α) : Quad α := ⟨f x.a, f x.b, f x.c, f x.d⟩

def zipWith (f : α → α → α) (x y : Quad α) : Quad α :=
  ⟨f x.a y.a, f x.b y.b, f x.c y.c, f x.d y.d⟩

def replicate (x : α) : Quad α := ⟨x, x, x, x⟩

instance [Scalar α] : Scalar (Quad α) where
  add := zipWith (· + ·)
  sub := zipWith (· - ·)
  mul := zipWith (· * ·)
  neg := map (- ·)
  zero := replicate Scalar.zero
  two := replicate Scalar.two

def evens (x y : Quad α) : Quad α := ⟨x.a, x.c, y.a, y.c⟩

def odds (x y : Quad α) : Quad α := ⟨x.b, x.d, y.b, y.d⟩

def interleaveLow (x y : Quad α) : Quad α := ⟨x.a, y.a, x.b, y.b⟩

def interleaveHigh (x y : Quad α) : Quad α := ⟨x.c, y.c, x.d, y.d⟩

theorem add_def [Scalar α] (x y : Quad α) :
    x + y = ⟨x.a + y.a, x.b + y.b, x.c + y.c, x.d + y.d⟩ := rfl

theorem sub_def [Scalar α] (x y : Quad α) :
    x - y = ⟨x.a - y.a, x.b - y.b, x.c - y.c, x.d - y.d⟩ := rfl

theorem mul_def [Scalar α] (x y : Quad α) :
    x * y = ⟨x.a * y.a, x.b * y.b, x.c * y.c, x.d * y.d⟩ := rfl

end Quad

namespace Cells

variable {α : Type}

def readPair (cells : Array (Cplx α)) (i : Nat) : Checked (Quad α) := do
  let z0 ← read cells i
  let z1 ← read cells (i + 1)
  return ⟨z0.re, z0.im, z1.re, z1.im⟩

def writePair (cells : Array (Cplx α)) (i : Nat) (x : Quad α) : Checked (Array (Cplx α)) := do
  let cells ← write cells i ⟨x.a, x.b⟩
  write cells (i + 1) ⟨x.c, x.d⟩

/-- Four points from `i` on, their real parts in one quad and their imaginary parts in another. -/
def load (cells : Array (Cplx α)) (i : Nat) : Checked (Cplx (Quad α)) := do
  let low ← readPair cells i
  let high ← readPair cells (i + 2)
  return ⟨low.evens high, low.odds high⟩

def store (cells : Array (Cplx α)) (i : Nat) (z : Cplx (Quad α)) : Checked (Array (Cplx α)) := do
  let cells ← writePair cells i (z.re.interleaveLow z.im)
  writePair cells (i + 2) (z.re.interleaveHigh z.im)

end Cells

end DyadicFourier
