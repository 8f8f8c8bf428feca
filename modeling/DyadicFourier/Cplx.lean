import DyadicFourier.Scalar

namespace DyadicFourier

structure Cplx (α : Type) where
  re : α
  im : α
  deriving DecidableEq, Repr

namespace Cplx

variable {α : Type} [Scalar α]

def zero : Cplx α := ⟨Scalar.zero, Scalar.zero⟩

instance : Add (Cplx α) := ⟨fun x y => ⟨x.re + y.re, x.im + y.im⟩⟩

instance : Sub (Cplx α) := ⟨fun x y => ⟨x.re - y.re, x.im - y.im⟩⟩

/-- The order of the four products and of the two sums decides the rounding. -/
instance : Mul (Cplx α) :=
  ⟨fun x y => ⟨x.re * y.re - x.im * y.im, x.im * y.re + x.re * y.im⟩⟩

def addI (x y : Cplx α) : Cplx α := ⟨x.re - y.im, x.im + y.re⟩

def subI (x y : Cplx α) : Cplx α := ⟨x.re + y.im, x.im - y.re⟩

def rotateI (x : Cplx α) : Cplx α := ⟨-x.im, x.re⟩

def conj (x : Cplx α) : Cplx α := ⟨x.re, -x.im⟩

@[simp] theorem re_add (x y : Cplx α) : (x + y).re = x.re + y.re := rfl

@[simp] theorem im_add (x y : Cplx α) : (x + y).im = x.im + y.im := rfl

@[simp] theorem re_sub (x y : Cplx α) : (x - y).re = x.re - y.re := rfl

@[simp] theorem im_sub (x y : Cplx α) : (x - y).im = x.im - y.im := rfl

@[simp] theorem re_mul (x y : Cplx α) : (x * y).re = x.re * y.re - x.im * y.im := rfl

@[simp] theorem im_mul (x y : Cplx α) : (x * y).im = x.im * y.re + x.re * y.im := rfl

@[simp] theorem re_conj (x : Cplx α) : x.conj.re = x.re := rfl

@[simp] theorem im_conj (x : Cplx α) : x.conj.im = -x.im := rfl

end Cplx

end DyadicFourier
