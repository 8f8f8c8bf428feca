import DyadicFourier.Proofs.Spectrum.Halves

namespace DyadicFourier

variable {α : Type} [Scalar α]

section Data

variable {table : Array (Cplx α)} {stored : Sense} {j : Nat}

theorem pairBins_congr {x y : Nat → α} (h : ∀ i < 2 ^ (j + 1), x i = y i) :
    pairBins table stored j x = pairBins table stored j y := by
  have hdouble : 2 ^ (j + 1) = 2 * 2 ^ j := Nat.pow_succ'
  have hpaired (t : Nat) (ht : t < 2 ^ j) : paired x t = paired y t := by
    rw [paired, paired, h (2 * t) (by omega), h (2 * t + 1) (by omega)]
  have hbins (w : Nat → Cplx α) :
      cascade .forward w j 1 (paired x) = cascade .forward w j 1 (paired y) :=
    funext fun k => cascade_congr hpaired k
  rw [pairBins, pairBins, hbins]

theorem realBins_congr {x y : Nat → α} (h : ∀ i < 2 ^ j, x i = y i) :
    realBins table stored j x = realBins table stored j y := by
  cases j with
  | zero => rw [realBins, realBins, h 0 Nat.zero_lt_one]
  | succ j => rw [realBins, realBins, pairBins_congr h]

theorem reunitedBins_congr {x y : Nat → Cplx α} (h : ∀ k ≤ 2 ^ j, x k = y k) :
    reunitedBins table stored j x = reunitedBins table stored j y :=
  crossed_congr (fun _ _ => rfl) h

theorem realSums_congr {x y : Nat → Cplx α} (h : ∀ k ≤ 2 ^ j / 2, x k = y k) :
    realSums table stored j x = realSums table stored j y := by
  cases j with
  | zero => rw [realSums, realSums, h 0 (Nat.zero_le _)]
  | succ j =>
      rw [two_pow_succ_div_two] at h
      rw [realSums, realSums, pairSums, pairSums, reunitedBins_congr h]

end Data

def SameRoots (j : Nat) (sense : Sense) (table : Array (Cplx α)) (stored : Sense)
    (table' : Array (Cplx α)) (stored' : Sense) : Prop :=
  ∀ i ≤ j, ∀ k < 2 ^ i, (Twiddles.view table (2 ^ i) stored sense).root k =
    (Twiddles.view table' (2 ^ i) stored' sense).root k

namespace SameRoots

variable {i j : Nat} {sense stored stored' : Sense} {table table' : Array (Cplx α)}

theorem cascade_eq (h : SameRoots j sense table stored table' stored') (hi : i ≤ j)
    (x : Nat → Cplx α) :
    cascade sense (Twiddles.view table (2 ^ i) stored sense).root i 1 x =
      cascade sense (Twiddles.view table' (2 ^ i) stored' sense).root i 1 x := by
  apply cascade_congr_roots Nat.zero_lt_one
  rw [Nat.one_mul]
  exact h i hi

theorem separation_eq (h : SameRoots (j + 1) sense table stored table' stored') {k : Nat}
    (hk : k ≤ 2 ^ j) : (Twiddles.view table (2 ^ (j + 1)) stored sense).root k =
      (Twiddles.view table' (2 ^ (j + 1)) stored' sense).root k := by
  have hlt : 2 ^ j < 2 ^ (j + 1) := Nat.pow_lt_pow_succ Nat.one_lt_two
  exact h (j + 1) (Nat.le_refl _) k (Nat.lt_of_le_of_lt hk hlt)

theorem realBins_eq (h : SameRoots j .forward table stored table' stored') (x : Nat → α) :
    realBins table stored j x = realBins table' stored' j x := by
  cases j with
  | zero => rfl
  | succ j =>
      apply crossed_congr fun k hk => h.separation_eq hk
      intro k _
      rw [pairBins, pairBins, h.cascade_eq (Nat.le_succ j)]

theorem reunitedBins_eq (h : SameRoots (j + 1) .inverse table stored table' stored')
    (x : Nat → Cplx α) : reunitedBins table stored j x = reunitedBins table' stored' j x :=
  crossed_congr (fun _ hk => h.separation_eq hk) fun _ _ => rfl

theorem realSums_eq (h : SameRoots j .inverse table stored table' stored') (x : Nat → Cplx α) :
    realSums table stored j x = realSums table' stored' j x := by
  cases j with
  | zero => rfl
  | succ j => rw [realSums, realSums, pairSums, pairSums, h.reunitedBins_eq,
      h.cascade_eq (Nat.le_succ j)]

theorem workBins_eq (h : SameRoots j .inverse table stored table' stored') (x : Nat → Cplx α)
    (scratch : Array (Cplx α)) :
    workBins table stored j x scratch = workBins table' stored' j x scratch := by
  cases j with
  | zero => rfl
  | succ j => rw [workBins, workBins, h.reunitedBins_eq]

end SameRoots

end DyadicFourier
