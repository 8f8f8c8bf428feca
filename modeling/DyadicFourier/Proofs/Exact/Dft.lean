import DyadicFourier.Proofs.Exact.Arithmetic
import Mathlib.RingTheory.RootsOfUnity.Complex

namespace DyadicFourier

open Finset

noncomputable instance : UnitRoots ℝ where
  root k n := ⟨Real.cos (2 * Real.pi * k / n), -Real.sin (2 * Real.pi * k / n)⟩

def Sense.sign : Sense → ℂ
  | .forward => -1
  | .inverse => 1

/-- `exp(∓2πik/n)`. -/
noncomputable def phase (sense : Sense) (n k : ℕ) : ℂ :=
  Complex.exp (sense.sign * (2 * Real.pi * Complex.I * k / n))

/-- The discrete Fourier transform as a plain sum, unscaled. -/
noncomputable def dft (sense : Sense) (count : ℕ) (x : ℕ → ℂ) (k : ℕ) : ℂ :=
  ∑ n ∈ range count, x n * phase sense count (n * k)

section Phase

variable (sense : Sense) {n : ℕ}

@[simp] theorem phase_zero (n : ℕ) : phase sense n 0 = 1 := by
  simp [phase]

theorem phase_add (n j k : ℕ) : phase sense n (j + k) = phase sense n j * phase sense n k := by
  rw [phase, phase, phase, ← Complex.exp_add]
  congr 1
  push_cast
  ring

theorem phase_mul_mul {d : ℕ} (hd : d ≠ 0) (n k : ℕ) :
    phase sense (d * n) (d * k) = phase sense n k := by
  have hd' : (d : ℂ) ≠ 0 := Nat.cast_ne_zero.2 hd
  rw [phase, phase]
  congr 2
  push_cast
  rw [mul_left_comm, mul_div_mul_left _ _ hd']

theorem phase_mul (n j k : ℕ) : phase sense n (j * k) = phase sense n k ^ j := by
  rw [phase, phase, ← Complex.exp_nat_mul]
  congr 1
  push_cast
  ring

theorem conj_phase (n k : ℕ) : starRingEnd ℂ (phase sense n k) = (phase sense n k)⁻¹ := by
  rw [phase, ← Complex.exp_neg, ← Complex.exp_conj]
  congr 1
  cases sense <;> simp [Sense.sign, map_ofNat, neg_div]

theorem phase_eq_conj {sense sense' : Sense} (h : sense ≠ sense') (n k : ℕ) :
    phase sense' n k = starRingEnd ℂ (phase sense n k) := by
  rw [conj_phase, phase, phase, ← Complex.exp_neg]
  cases sense <;> cases sense' <;> simp_all [Sense.sign]

theorem phase_eq_one_iff (hn : n ≠ 0) (k : ℕ) : phase sense n k = 1 ↔ n ∣ k := by
  have hroot : phase .inverse n 1 = Complex.exp (2 * Real.pi * Complex.I / n) := by
    simp [phase, Sense.sign]
  have hinverse : phase .inverse n k = 1 ↔ n ∣ k := by
    rw [← mul_one k, phase_mul, hroot, mul_one]
    exact (Complex.isPrimitiveRoot_exp n hn).pow_eq_one_iff_dvd k
  cases sense with
  | inverse => exact hinverse
  | forward =>
      rw [phase_eq_conj (by decide : Sense.inverse ≠ .forward), conj_phase, inv_eq_one, hinverse]

theorem phase_mul_self (hn : n ≠ 0) (t : ℕ) : phase sense n (n * t) = 1 :=
  (phase_eq_one_iff sense hn _).2 (dvd_mul_right n t)

theorem phase_add_mul_self (hn : n ≠ 0) (k t : ℕ) :
    phase sense n (k + n * t) = phase sense n k := by
  rw [phase_add, phase_mul_self sense hn, mul_one]

theorem phase_two_one : phase sense 2 1 = -1 := by
  have harg : 2 * Real.pi * Complex.I * (1 : ℕ) / (2 : ℕ) = Real.pi * Complex.I := by
    push_cast
    ring
  rw [phase, harg]
  cases sense with
  | forward => rw [Sense.sign, neg_one_mul, Complex.exp_neg, Complex.exp_pi_mul_I, inv_neg_one]
  | inverse => rw [Sense.sign, one_mul, Complex.exp_pi_mul_I]

theorem phase_add_half (hn : n ≠ 0) (k : ℕ) :
    phase sense (2 * n) (k + n) = -phase sense (2 * n) k := by
  have hhalf := phase_mul_mul sense hn 2 1
  rw [mul_one, mul_comm, phase_two_one] at hhalf
  rw [phase_add, hhalf, mul_neg_one]

theorem phase_four_one : phase sense 4 1 = sense.sign * Complex.I := by
  have harg : 2 * Real.pi * Complex.I * (1 : ℕ) / (4 : ℕ) = Real.pi / 2 * Complex.I := by
    push_cast
    ring
  rw [phase, harg]
  cases sense with
  | forward =>
      rw [Sense.sign, neg_one_mul, neg_one_mul, Complex.exp_neg, Complex.exp_pi_div_two_mul_I,
        Complex.inv_I]
  | inverse => rw [Sense.sign, one_mul, one_mul, Complex.exp_pi_div_two_mul_I]

end Phase

section Sums

variable (sense : Sense)

theorem sum_range_residues {M : Type} [AddCommMonoid M] (d m : ℕ) (f : ℕ → M) :
    ∑ n ∈ range (d * m), f n = ∑ q ∈ range d, ∑ t ∈ range m, f (q + d * t) := by
  induction m with
  | zero => simp
  | succ m ih =>
      rw [Nat.mul_succ, sum_range_add, ih, ← sum_add_distrib]
      refine sum_congr rfl fun q _ => ?_
      rw [sum_range_succ, add_comm (d * m)]

theorem dft_congr {count : ℕ} {x y : ℕ → ℂ} (h : ∀ n < count, x n = y n) (k : ℕ) :
    dft sense count x k = dft sense count y k :=
  sum_congr rfl fun n hn => by rw [h n (mem_range.1 hn)]

theorem dft_add_count {count : ℕ} (hc : count ≠ 0) (x : ℕ → ℂ) (k : ℕ) :
    dft sense count x (k + count) = dft sense count x k := by
  refine sum_congr rfl fun n _ => ?_
  rw [mul_add, mul_comm n count, phase_add_mul_self sense hc]

theorem dft_split {d m : ℕ} (hd : d ≠ 0) (hm : m ≠ 0) (x : ℕ → ℂ) (i p : ℕ) :
    dft sense (d * m) x (i + p * m) = dft sense d (fun q =>
      dft sense m (fun t => x (q + d * t)) i * phase sense (d * m) (q * i)) p := by
  rw [dft, sum_range_residues, dft]
  refine sum_congr rfl fun q _ => ?_
  rw [dft, sum_mul, sum_mul]
  refine sum_congr rfl fun t _ => ?_
  have hexp : (q + d * t) * (i + p * m) = q * i + d * (t * i) + m * (q * p) + d * m * (t * p) := by
    ring
  have hpoint := phase_mul_mul sense hd m (t * i)
  have hquarter := phase_mul_mul sense hm d (q * p)
  rw [mul_comm m d] at hquarter
  rw [hexp, phase_add_mul_self sense (Nat.mul_ne_zero hd hm), phase_add, phase_add, hpoint,
    hquarter]
  ring

theorem dft_one (x : ℕ → ℂ) (k : ℕ) : dft sense 1 x k = x 0 := by
  rw [dft, sum_range_one, Nat.zero_mul, phase_zero, mul_one]

theorem dft_two (x : ℕ → ℂ) : dft sense 2 x 0 = x 0 + x 1 ∧ dft sense 2 x 1 = x 0 - x 1 := by
  simp [dft, sum_range_succ, phase_two_one, sub_eq_add_neg]

theorem dft_even_odd {half : ℕ} (hh : half ≠ 0) (x : ℕ → ℂ) (k : ℕ) :
    dft sense (2 * half) x k = dft sense half (fun t => x (2 * t)) k +
      dft sense half (fun t => x (2 * t + 1)) k * phase sense (2 * half) k := by
  have hsplit := dft_split sense two_ne_zero hh x k 0
  rw [zero_mul, add_zero, (dft_two _ _).1] at hsplit
  simpa [add_comm] using hsplit

theorem dft_even_bin {half : ℕ} (hh : half ≠ 0) (x : ℕ → ℂ) (n : ℕ) :
    dft sense (2 * half) x (2 * n) = dft sense half (fun k => x k + x (half + k)) n := by
  have hpoint (k : ℕ) : phase sense (2 * half) (k * (2 * n)) = phase sense half (k * n) := by
    rw [mul_left_comm, phase_mul_mul sense two_ne_zero]
  have hlate (k : ℕ) : phase sense half ((half + k) * n) = phase sense half (k * n) := by
    rw [add_mul, add_comm, phase_add_mul_self sense hh]
  rw [dft, dft]
  simp only [hpoint]
  rw [two_mul, sum_range_add, ← sum_add_distrib]
  refine sum_congr rfl fun k _ => ?_
  rw [hlate, add_mul]

theorem dft_odd_bin {half : ℕ} (hh : half ≠ 0) (x : ℕ → ℂ) (n : ℕ) :
    dft sense (2 * half) x (2 * n + 1) =
      dft sense half (fun k => (x k - x (half + k)) * phase sense (2 * half) k) n := by
  have hpoint (k : ℕ) : phase sense (2 * half) (k * (2 * n + 1)) =
      phase sense (2 * half) k * phase sense half (k * n) := by
    rw [mul_add, mul_one, mul_left_comm, add_comm, phase_add, phase_mul_mul sense two_ne_zero]
  have hlate (k : ℕ) : phase sense (2 * half) (half + k) * phase sense half ((half + k) * n) =
      -(phase sense (2 * half) k * phase sense half (k * n)) := by
    rw [add_comm, phase_add_half sense hh, add_mul, phase_add_mul_self sense hh, neg_mul]
  rw [dft, dft]
  simp only [hpoint]
  rw [two_mul, sum_range_add, ← sum_add_distrib]
  simp only [← two_mul]
  refine sum_congr rfl fun k _ => ?_
  rw [hlate]
  ring

theorem dft_add_mul (count : ℕ) (c : ℂ) (x y : ℕ → ℂ) (k : ℕ) :
    dft sense count (fun n => x n + c * y n) k = dft sense count x k + c * dft sense count y k := by
  rw [dft, dft, dft, mul_sum, ← sum_add_distrib]
  refine sum_congr rfl fun n _ => ?_
  ring

theorem dft_mul (count : ℕ) (c : ℂ) (x : ℕ → ℂ) (k : ℕ) :
    dft sense count (fun n => c * x n) k = c * dft sense count x k := by
  have h := dft_add_mul sense count c (fun _ => 0) x k
  simpa [dft] using h

theorem conj_phase_of_add {n a b t : ℕ} (hn : n ≠ 0) (hab : a + b = n * t) :
    starRingEnd ℂ (phase sense n a) = phase sense n b := by
  have hone : phase sense n a * phase sense n b = 1 := by
    rw [← phase_add, hab, phase_mul_self sense hn]
  rw [conj_phase]
  exact inv_eq_of_mul_eq_one_right hone

theorem conj_dft {count a b t : ℕ} (hc : count ≠ 0) (hab : a + b = count * t) (x : ℕ → ℂ) :
    starRingEnd ℂ (dft sense count x a) = dft sense count (fun n => starRingEnd ℂ (x n)) b := by
  rw [dft, dft, map_sum]
  refine sum_congr rfl fun n _ => ?_
  have hmul : n * a + n * b = count * (n * t) := by
    rw [← mul_add, hab, mul_left_comm]
  rw [map_mul, conj_phase_of_add sense hc hmul]

theorem conj_dft_self {count : ℕ} {x : ℕ → ℂ} (h0 : starRingEnd ℂ (x 0) = x 0)
    (hx : ∀ k, 0 < k → k < count → starRingEnd ℂ (x k) = x (count - k)) (n : ℕ) :
    starRingEnd ℂ (dft sense count x n) = dft sense count x n := by
  cases count with
  | zero => simp [dft]
  | succ m =>
      rw [dft, sum_range_succ', map_add, map_sum, zero_mul, phase_zero, mul_one, h0,
        ← sum_range_reflect]
      congr 1
      refine sum_congr rfl fun k hk => ?_
      have hlt := mem_range.1 hk
      have hback : m + 1 - (m - 1 - k + 1) = k + 1 := by omega
      have hadd : (m - 1 - k + 1) * n + (k + 1) * n = (m + 1) * n := by
        rw [← add_mul]
        congr 1
        omega
      rw [map_mul, hx _ (Nat.succ_pos _) (by omega), hback,
        conj_phase_of_add sense m.succ_ne_zero hadd]

theorem sum_phase {n : ℕ} (hn : n ≠ 0) (a : ℕ) :
    ∑ j ∈ range n, phase sense n (j * a) = if n ∣ a then (n : ℂ) else 0 := by
  have hpow (j : ℕ) : phase sense n (j * a) = phase sense n a ^ j := phase_mul sense n j a
  simp only [hpow]
  split_ifs with h
  · rw [(phase_eq_one_iff sense hn a).2 h]
    simp
  · have hne : phase sense n a - 1 ≠ 0 :=
      sub_ne_zero.2 fun h1 => h ((phase_eq_one_iff sense hn a).1 h1)
    have hgeom : (phase sense n a - 1) * ∑ j ∈ range n, phase sense n a ^ j = 0 := by
      rw [mul_geom_sum, ← phase_mul, phase_mul_self sense hn, sub_self]
    exact (mul_eq_zero.1 hgeom).resolve_left hne

theorem dft_dft {sense sense' : Sense} (h : sense ≠ sense') {count k : ℕ} (hk : k < count)
    (x : ℕ → ℂ) : dft sense' count (dft sense count x) k = count * x k := by
  have hc : count ≠ 0 := Nat.ne_zero_of_lt hk
  have hinner (n : ℕ) (hn : n < count) :
      ∑ j ∈ range count, phase sense count (n * j) * phase sense' count (j * k) =
        if n = k then (count : ℂ) else 0 := by
    have hdvd : count ∣ n + (count - k) ↔ n = k := by
      constructor
      · rintro ⟨t, ht⟩
        have hpos : 0 < t := Nat.pos_of_mul_pos_left (a := count) (by omega)
        have hlt : t < 2 := Nat.lt_of_mul_lt_mul_left (a := count) (by omega)
        interval_cases t
        omega
      · rintro rfl
        exact ⟨1, by omega⟩
    simp only [← hdvd, ← sum_phase sense hc]
    refine sum_congr rfl fun j _ => ?_
    have hadd : j * k + j * (count - k) = count * j := by
      rw [← mul_add, Nat.add_sub_cancel' (Nat.le_of_lt hk), mul_comm]
    rw [phase_eq_conj h, conj_phase_of_add sense hc hadd, ← phase_add, mul_comm n, mul_add]
  calc dft sense' count (dft sense count x) k
      = ∑ j ∈ range count, ∑ n ∈ range count,
          x n * (phase sense count (n * j) * phase sense' count (j * k)) := by
        refine sum_congr rfl fun j _ => ?_
        rw [dft, sum_mul]
        exact sum_congr rfl fun n _ => mul_assoc _ _ _
    _ = ∑ n ∈ range count, x n * ∑ j ∈ range count,
          phase sense count (n * j) * phase sense' count (j * k) := by
        rw [sum_comm]
        exact sum_congr rfl fun n _ => (mul_sum _ _ _).symm
    _ = ∑ n ∈ range count, if n = k then count * x k else 0 := by
        refine sum_congr rfl fun n hn => ?_
        rw [hinner n (mem_range.1 hn)]
        split_ifs with hnk
        · rw [hnk, mul_comm]
        · rw [mul_zero]
    _ = count * x k := by
        rw [sum_ite_eq', if_pos (mem_range.2 hk)]

end Sums

end DyadicFourier
