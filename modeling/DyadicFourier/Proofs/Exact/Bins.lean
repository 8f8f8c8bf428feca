import DyadicFourier.Proofs.Exact.Points

namespace DyadicFourier

section Ring

variable {R : Type} [CommRing R]

theorem crossed_apply (join : Cplx R → Parts R → Cplx R) (w : ℕ → Cplx R) {half k : ℕ}
    (hk : k ≤ half) (z : ℕ → Cplx R) :
    crossed join w half z k = join (w k) (Parts.ofBins (z k) (z (half - k))) := by
  have hback : half - (half - k) = k := Nat.sub_sub_self hk
  apply mirrored_eq_left
  rw [Parts.opposite_ofBins, hback]

end Ring

theorem toComplex_paired (x : ℕ → ℝ) (t : ℕ) :
    (paired x t).toComplex = x (2 * t) + Complex.I * x (2 * t + 1) := by
  apply Complex.ext <;> simp [paired]

section Bins

variable {j n k : ℕ} {stored : Sense}

theorem toComplex_pairBins (h : Divides (2 ^ j) (unitTable n stored : Array (Cplx ℝ)))
    (x : ℕ → ℝ) (hk : k ≤ 2 ^ j) : (pairBins (unitTable n stored) stored j x k).toComplex =
      dft .forward (2 ^ j) (fun t => (paired x t).toComplex) k := by
  have hpos := Nat.two_pow_pos j
  rcases Nat.lt_or_eq_of_le hk with hlt | rfl
  · rw [pairBins, Function.update_of_ne (Nat.ne_of_lt hlt)]
    exact toComplex_cascade_view stored .forward h _ hlt
  · rw [pairBins, Function.update_self, toComplex_cascade_view stored .forward h _ hpos]
    have hperiod := dft_add_count .forward hpos.ne' (fun t => (paired x t).toComplex) 0
    rw [zero_add] at hperiod
    exact hperiod.symm

theorem toComplex_realBins_succ (h : Divides (2 ^ (j + 1)) (unitTable n stored : Array (Cplx ℝ)))
    (x : ℕ → ℝ) (hk : k ≤ 2 ^ j) : (realBins (unitTable n stored) stored (j + 1) x k).toComplex =
      2 * dft .forward (2 ^ (j + 1)) (fun t => (x t : ℂ)) k := by
  have hpos := Nat.two_pow_pos j
  have hcount : 2 ^ (j + 1) = 2 * 2 ^ j := pow_succ' 2 j
  have hhalf := h.of_dvd (Nat.pow_dvd_pow 2 (Nat.le_succ j))
  have hback : 2 ^ j - k + k = 2 ^ j * 1 := by omega
  rw [realBins, crossed_apply _ _ hk, Parts.toComplex_separate,
    toComplex_pairBins hhalf x hk, toComplex_pairBins hhalf x (Nat.sub_le _ _),
    conj_dft .forward hpos.ne' hback, toComplex_view stored .forward h (by omega), hcount,
    dft_even_odd .forward hpos.ne']
  -- the opposite bin has the odd samples with the other sign
  have hconj (t : ℕ) : starRingEnd ℂ (paired x t).toComplex =
      x (2 * t) + -Complex.I * x (2 * t + 1) := by
    rw [toComplex_paired]
    simp
  simp only [hconj]
  simp only [toComplex_paired, dft_add_mul]
  linear_combination (-2 * phase .forward (2 * 2 ^ j) k *
    dft .forward (2 ^ j) (fun t => (x (2 * t + 1) : ℂ)) k) * Complex.I_sq

theorem toComplex_realBins (h : Divides (2 ^ j) (unitTable n stored : Array (Cplx ℝ)))
    (x : ℕ → ℝ) (hk : k ≤ 2 ^ j / 2) : (realBins (unitTable n stored) stored j x k).toComplex =
      2 * dft .forward (2 ^ j) (fun t => (x t : ℂ)) k := by
  cases j with
  | zero =>
      rw [pow_zero, dft_one, ← one_add_one_eq_two, ← Complex.ofReal_one, ← Complex.ofReal_add,
        ← Complex.ofReal_mul]
      rfl
  | succ j =>
      rw [two_pow_succ_div_two] at hk
      exact toComplex_realBins_succ h x hk

end Bins

theorem toComplex_points_ofReal (input : Array ℝ) (n : ℕ) :
    (points (input.map fun x => ⟨x, 0⟩) n).toComplex = ((numbers input n : ℝ) : ℂ) := by
  rw [points, numbers, Array.getElem?_map]
  cases input[n]? <;> rfl

namespace Context

variable {ctx : Context ℝ} {j : ℕ} {input : Array ℝ} {out bins : Array (Cplx ℝ)}

theorem Sound.forwardReal_holds (h : ctx.Sound) (hr : ctx.realRefusal? (2 ^ j) .forward = none)
    (hin : 2 ^ j ≤ input.size) (hout : 2 ^ j / 2 + 1 ≤ out.size) :
    ∃ after, ctx.forwardReal (2 ^ j) input out = .ok (.accepted after) ∧
      Holds Cplx.toComplex after (2 ^ j / 2 + 1)
        fun k => 2 * dft .forward (2 ^ j) (fun n => ((numbers input n : ℝ) : ℂ)) k := by
  rw [h.forwardReal_eq, forwardReply_of_sizes hr hin hout]
  refine ⟨_, rfl, holds_fill hout fun k hk => ?_⟩
  exact toComplex_realBins (h.divides (realRefusal?_eq_none_iff.1 hr).2) _ (Nat.le_of_lt_succ hk)

theorem forward_real_exact (h : ctx.Reachable) (hreal : ctx.config.real = true)
    (hs : ctx.config.direction.supports .forward = true) (hj : 2 ^ j ≤ ctx.maxCount)
    (hin : 2 ^ j ≤ input.size) (hout : 2 ^ j / 2 + 1 ≤ out.size) (hbins : 2 ^ j ≤ bins.size) :
    ∃ after spectrum, ctx.forwardReal (2 ^ j) input out = .ok (.accepted after) ∧
      ctx.forwardComplex (2 ^ j) (input.map fun x => ⟨x, 0⟩) bins = .ok (.accepted spectrum) ∧
      Holds Cplx.toComplex after (2 ^ j / 2 + 1)
        (fun k => 2 * dft .forward (2 ^ j) (fun n => ((numbers input n : ℝ) : ℂ)) k) ∧
      ∀ k ≤ 2 ^ j / 2, (after[k]?).map Cplx.toComplex =
        (spectrum[k]?).map fun z => 2 * z.toComplex := by
  have hr := refusal?_two_pow hj hs
  obtain ⟨after, hafter, hbins'⟩ :=
    h.sound.forwardReal_holds (realRefusal?_eq_none_iff.2 ⟨hreal, hr⟩) hin hout
  have hin' : 2 ^ j ≤ (input.map fun x => (⟨x, 0⟩ : Cplx ℝ)).size := by simpa using hin
  obtain ⟨spectrum, hspectrum, hpoints⟩ := h.sound.transformComplex_exact hr hin' hbins
  simp only [toComplex_points_ofReal] at hpoints
  refine ⟨after, spectrum, hafter, hspectrum, hbins', fun k hk => ?_⟩
  have hlt : k < 2 ^ j := by
    have hpos := Nat.two_pow_pos j
    omega
  have hdouble : (spectrum[k]?).map (fun z => 2 * z.toComplex) =
      ((spectrum[k]?).map Cplx.toComplex).map (2 * ·) := by
    rw [Option.map_map]
    rfl
  rw [hbins' k (Nat.lt_succ_of_le hk), hdouble, hpoints k hlt, Option.map_some]

theorem forward_real_exact_eight :
    let ctx : Context ℝ := built ⟨16, .forward, true, false⟩ ⟨16, 0⟩ (.fresh 16)
    let input : Array ℝ := #[3, 1, 4, 1, 5, 9, 2, 6]
    let cells : Array (Cplx ℝ) := Array.replicate 8 ⟨0, 0⟩
    ∃ after spectrum, ctx.forwardReal (2 ^ 3) input cells = .ok (.accepted after) ∧
      ctx.forwardComplex (2 ^ 3) (input.map fun x => ⟨x, 0⟩) cells = .ok (.accepted spectrum) ∧
      Holds Cplx.toComplex after (2 ^ 3 / 2 + 1)
        (fun k => 2 * dft .forward (2 ^ 3) (fun n => ((numbers input n : ℝ) : ℂ)) k) ∧
      ∀ k ≤ 2 ^ 3 / 2, (after[k]?).map Cplx.toComplex =
        (spectrum[k]?).map fun z => 2 * z.toComplex := by
  intro ctx input cells
  have hl : ctx.config.layout = .ok ⟨16, 0⟩ := by decide
  have h : ctx.Reachable := reachable_fresh hl (by decide)
  exact forward_real_exact h rfl rfl (by decide) (by simp [input]) (by simp [cells])
    (by simp [cells])

end Context

end DyadicFourier
