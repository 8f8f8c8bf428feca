import DyadicFourier.Butterfly
import DyadicFourier.Spectrum
import Mathlib.Analysis.SpecialFunctions.Trigonometric.Basic

namespace DyadicFourier

/-- Exact arithmetic: no operation rounds. -/
instance Scalar.ofCommRing {R : Type} [CommRing R] : Scalar R where
  zero := 0
  two := 1 + 1

namespace Cplx

def toComplex (z : Cplx ℝ) : ℂ := ⟨z.re, z.im⟩

@[simp] theorem re_toComplex (z : Cplx ℝ) : z.toComplex.re = z.re := rfl

@[simp] theorem im_toComplex (z : Cplx ℝ) : z.toComplex.im = z.im := rfl

@[simp] theorem toComplex_add (x y : Cplx ℝ) :
    (x + y).toComplex = x.toComplex + y.toComplex := rfl

@[simp] theorem toComplex_sub (x y : Cplx ℝ) :
    (x - y).toComplex = x.toComplex - y.toComplex := by
  apply Complex.ext
  · rw [Complex.sub_re]
    rfl
  · rw [Complex.sub_im]
    rfl

@[simp] theorem toComplex_mul (x y : Cplx ℝ) :
    (x * y).toComplex = x.toComplex * y.toComplex := by
  apply Complex.ext
  · rw [Complex.mul_re]
    rfl
  · rw [Complex.mul_im, add_comm]
    rfl

@[simp] theorem toComplex_conj (x : Cplx ℝ) :
    x.conj.toComplex = starRingEnd ℂ x.toComplex := rfl

@[simp] theorem toComplex_addI (x y : Cplx ℝ) :
    (x.addI y).toComplex = x.toComplex + Complex.I * y.toComplex := by
  apply Complex.ext
  · rw [Complex.add_re, Complex.I_mul_re, ← sub_eq_add_neg]
    rfl
  · rw [Complex.add_im, Complex.I_mul_im]
    rfl

@[simp] theorem toComplex_subI (x y : Cplx ℝ) :
    (x.subI y).toComplex = x.toComplex - Complex.I * y.toComplex := by
  apply Complex.ext
  · rw [Complex.sub_re, Complex.I_mul_re, sub_neg_eq_add]
    rfl
  · rw [Complex.sub_im, Complex.I_mul_im]
    rfl

@[simp] theorem toComplex_rotateI (x : Cplx ℝ) :
    x.rotateI.toComplex = Complex.I * x.toComplex := by
  apply Complex.ext
  · rw [Complex.I_mul_re]
    rfl
  · rw [Complex.I_mul_im]
    rfl

end Cplx

namespace Parts

variable {R : Type} [CommRing R]

theorem opposite_ofBins (z z' : Cplx R) : (ofBins z z').opposite = ofBins z' z := by
  simp only [ofBins, opposite, mk.injEq, Cplx.mk.injEq]
  refine ⟨⟨add_comm _ _, neg_sub _ _⟩, neg_sub _ _, add_comm _ _⟩

theorem toComplex_sum_ofBins (z z' : Cplx ℝ) :
    (ofBins z z').sum.toComplex = z.toComplex + starRingEnd ℂ z'.toComplex := by
  apply Complex.ext
  · rfl
  · rw [Complex.add_im, Complex.conj_im, ← sub_eq_add_neg]
    rfl

theorem toComplex_diff_ofBins (z z' : Cplx ℝ) :
    (ofBins z z').diff.toComplex = z.toComplex - starRingEnd ℂ z'.toComplex := by
  apply Complex.ext
  · rw [Complex.sub_re]
    rfl
  · rw [Complex.sub_im, Complex.conj_im, sub_neg_eq_add]
    rfl

theorem toComplex_separate (w z z' : Cplx ℝ) : ((ofBins z z').separate w).toComplex =
    z.toComplex + starRingEnd ℂ z'.toComplex -
      Complex.I * w.toComplex * (z.toComplex - starRingEnd ℂ z'.toComplex) := by
  rw [separate, Cplx.toComplex_sub, Cplx.toComplex_mul, Cplx.toComplex_rotateI,
    toComplex_sum_ofBins, toComplex_diff_ofBins]

theorem toComplex_reunite (w z z' : Cplx ℝ) : ((ofBins z z').reunite w).toComplex =
    z.toComplex + starRingEnd ℂ z'.toComplex +
      Complex.I * w.toComplex * (z.toComplex - starRingEnd ℂ z'.toComplex) := by
  rw [reunite, Cplx.toComplex_add, Cplx.toComplex_mul, Cplx.toComplex_rotateI,
    toComplex_sum_ofBins, toComplex_diff_ofBins]

end Parts

end DyadicFourier
