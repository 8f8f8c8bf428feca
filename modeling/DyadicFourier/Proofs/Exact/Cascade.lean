import DyadicFourier.Proofs.Exact.Dft
import DyadicFourier.Proofs.Transform.Views

namespace DyadicFourier

open Finset

theorem toComplex_butterfly (sense : Sense) (f : Row ℝ) {p : ℕ} (hp : p < 4) :
    ((butterfly sense f).get p).toComplex = dft sense 4 (fun q => (f.get q).toComplex) p := by
  have hhalf (k : ℕ) : phase sense 4 (k + 2) = -phase sense 4 k :=
    phase_add_half sense (n := 2) two_ne_zero k
  have hquarter := phase_four_one sense
  cases sense
  all_goals
    interval_cases p <;>
      simp [dft, sum_range_succ, hhalf, hquarter, butterfly, Row.get, Sense.sign] <;> ring

theorem toComplex_joinRow {sense : Sense} {w : ℕ → Cplx ℝ} {stride i n : ℕ}
    (hw : ∀ q, 1 ≤ q → q ≤ 3 → (w (q * i * stride)).toComplex = phase sense n (q * i))
    (f : Row ℝ) {p : ℕ} (hp : p < 4) : ((joinRow sense w stride i f).get p).toComplex =
      dft sense 4 (fun q => (f.get q).toComplex * phase sense n (q * i)) p := by
  have hw1 := hw 1 le_rfl (by omega)
  rw [one_mul] at hw1
  rw [joinRow, toComplex_butterfly sense _ hp]
  refine dft_congr sense (fun q hq => ?_) p
  interval_cases q
  · rw [zero_mul, phase_zero, mul_one]
    rfl
  · rw [one_mul, ← hw1]
    exact Cplx.toComplex_mul _ _
  · rw [← hw 2 (by omega) (by omega)]
    exact Cplx.toComplex_mul _ _
  · rw [← hw 3 (by omega) le_rfl]
    exact Cplx.toComplex_mul _ _

theorem toComplex_cascade {sense : Sense} {w : ℕ → Cplx ℝ} {m stride : ℕ} (hs : stride ≠ 0)
    (hw : ∀ k < stride * 2 ^ m, (w k).toComplex = phase sense (stride * 2 ^ m) k)
    (x : ℕ → Cplx ℝ) {k : ℕ} (hk : k < 2 ^ m) :
    (cascade sense w m stride x k).toComplex = dft sense (2 ^ m) (fun n => (x n).toComplex) k := by
  induction m using Nat.strong_induction_on generalizing stride x k with
  | _ m ih =>
    match m with
    | 0 => rw [cascade, pow_zero, dft_one]
    | 1 =>
        interval_cases k
        · rw [cascade, if_pos rfl, Cplx.toComplex_add, pow_one, (dft_two _ _).1]
        · rw [cascade, if_neg one_ne_zero, Cplx.toComplex_sub, pow_one, (dft_two _ _).2]
    | 2 =>
        rw [cascade, toComplex_butterfly sense _ hk]
        refine dft_congr sense (fun q hq => ?_) k
        rw [Row.get_ofFn hq]
    | m + 3 =>
        have hpow := four_mul_two_pow m
        have hrow : k % 2 ^ (m + 1) < 2 ^ (m + 1) := Nat.mod_lt _ (Nat.two_pow_pos _)
        have hcol : k / 2 ^ (m + 1) < 4 := Nat.div_lt_of_lt_mul (by omega)
        have hquarter := dft_split sense four_ne_zero (Nat.two_pow_pos (m + 1)).ne'
          (fun n => (x n).toComplex) (k % 2 ^ (m + 1)) (k / 2 ^ (m + 1))
        rw [mul_comm (k / 2 ^ (m + 1)), Nat.mod_add_div, hpow] at hquarter
        have hroot (q : ℕ) (_ : 1 ≤ q) (hq : q ≤ 3) :
            (w (q * (k % 2 ^ (m + 1)) * stride)).toComplex =
              phase sense (2 ^ (m + 3)) (q * (k % 2 ^ (m + 1))) := by
          have hle : q * (k % 2 ^ (m + 1)) ≤ 3 * (k % 2 ^ (m + 1)) := Nat.mul_le_mul_right _ hq
          have hlt : q * (k % 2 ^ (m + 1)) < 2 ^ (m + 3) := by omega
          rw [mul_comm _ stride, hw _ (Nat.mul_lt_mul_of_pos_left hlt (Nat.pos_of_ne_zero hs)),
            phase_mul_mul sense hs]
        rw [hquarter, cascade, toComplex_joinRow hroot _ hcol]
        refine dft_congr sense (fun q hq => ?_) _
        have hstride : stride * 4 * 2 ^ (m + 1) = stride * 2 ^ (m + 3) := by
          rw [mul_assoc, hpow]
        rw [Row.get_ofFn hq, ih (m + 1) (by omega) (Nat.mul_ne_zero hs four_ne_zero)
          (hstride ▸ hw) _ hrow]

theorem toComplex_root (k n : ℕ) :
    (UnitRoots.root k n : Cplx ℝ).toComplex = phase .forward n k := by
  have harg : Sense.forward.sign * (2 * Real.pi * Complex.I * k / n) =
      ((-(2 * Real.pi * k / n) : ℝ) : ℂ) * Complex.I := by
    rw [Sense.sign]
    push_cast
    ring
  rw [phase, harg]
  apply Complex.ext
  · rw [Complex.exp_ofReal_mul_I_re, Real.cos_neg]
    rfl
  · rw [Complex.exp_ofReal_mul_I_im, Real.sin_neg]
    rfl

theorem toComplex_orient (sense : Sense) (k n : ℕ) :
    (sense.orient (UnitRoots.root k n : Cplx ℝ)).toComplex = phase sense n k := by
  cases sense with
  | forward => exact toComplex_root k n
  | inverse =>
      rw [Sense.orient, Cplx.toComplex_conj, toComplex_root]
      exact (phase_eq_conj (by decide) n k).symm

theorem toComplex_view {count n k : ℕ} (stored sense : Sense)
    (h : Divides count (unitTable n stored : Array (Cplx ℝ))) (hk : k < count) :
    ((Twiddles.view (unitTable n stored) count stored sense).root k : Cplx ℝ).toComplex =
      phase sense count k := by
  have hpos := h.pos
  have hdvd := h.dvd
  rw [size_unitTable] at hpos hdvd
  have hn : n / count * count = n := Nat.div_mul_cancel hdvd
  have hdiv : n / count ≠ 0 := by
    intro hz
    rw [hz, zero_mul] at hn
    omega
  have horient (sense : Sense) :
      (sense.orient (UnitRoots.root (k * (n / count)) n : Cplx ℝ)).toComplex =
        phase sense count k := by
    have hscale := phase_mul_mul sense hdiv count k
    rw [hn] at hscale
    rw [toComplex_orient, mul_comm k, hscale]
  rw [Twiddles.root_unitTable h sense hk]
  by_cases hs : stored = sense
  · subst hs
    rw [if_neg (by simp), horient]
  · rw [if_pos (by simpa using hs), Cplx.toComplex_conj, horient, phase_eq_conj hs]

theorem toComplex_cascade_view {m n k : ℕ} (stored sense : Sense)
    (h : Divides (2 ^ m) (unitTable n stored : Array (Cplx ℝ))) (x : ℕ → Cplx ℝ) (hk : k < 2 ^ m) :
    (cascade sense (Twiddles.view (unitTable n stored) (2 ^ m) stored sense).root
        m 1 x k).toComplex =
      dft sense (2 ^ m) (fun t => (x t).toComplex) k := by
  apply toComplex_cascade one_ne_zero _ x hk
  rw [one_mul]
  exact fun t ht => toComplex_view stored sense h ht

end DyadicFourier
