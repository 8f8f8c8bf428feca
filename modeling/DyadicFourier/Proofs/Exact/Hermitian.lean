import DyadicFourier.Proofs.Exact.Bins

namespace DyadicFourier

/-- A one-sided spectrum continued to the bins above `count / 2`. -/
noncomputable def hermitian (count : ℕ) (x : ℕ → ℂ) (k : ℕ) : ℂ :=
  if k ≤ count / 2 then x k else starRingEnd ℂ (x (count - k))

section Extension

variable {count half : ℕ} {x : ℕ → ℂ}

theorem conj_hermitian (hx : starRingEnd ℂ (x (count / 2)) = x (count / 2)) {k : ℕ} (h0 : 0 < k)
    (hk : k < count) : starRingEnd ℂ (hermitian count x k) = hermitian count x (count - k) := by
  have hback : count - (count - k) = k := by omega
  rw [hermitian, hermitian, hback]
  split_ifs with hl hr hr
  · have hmid : k = count / 2 ∧ count - k = count / 2 := by omega
    rw [hmid.2, hmid.1, hx]
  · rfl
  · exact Complex.conj_conj _
  · omega

theorem conj_dft_hermitian (h0 : starRingEnd ℂ (x 0) = x 0)
    (hx : starRingEnd ℂ (x (count / 2)) = x (count / 2)) (sense : Sense) (n : ℕ) :
    starRingEnd ℂ (dft sense count (hermitian count x) n) =
      dft sense count (hermitian count x) n := by
  apply conj_dft_self sense
  · rw [hermitian, if_pos (Nat.zero_le _), h0]
  · exact fun k => conj_hermitian hx

theorem hermitian_low {k : ℕ} (hk : k ≤ half) : hermitian (2 * half) x k = x k := by
  rw [hermitian, if_pos (by omega)]

theorem hermitian_high (hx : starRingEnd ℂ (x half) = x half) (k : ℕ) :
    hermitian (2 * half) x (half + k) = starRingEnd ℂ (x (half - k)) := by
  cases k with
  | zero => rw [add_zero, hermitian_low le_rfl, Nat.sub_zero, hx]
  | succ k =>
      have hback : 2 * half - (half + (k + 1)) = half - (k + 1) := by omega
      rw [hermitian, if_neg (by omega), hback]

theorem hermitian_dft (hc : count ≠ 0) {s : ℕ → ℝ}
    (hx : ∀ k ≤ count / 2, x k = dft .forward count (fun n => (s n : ℂ)) k) {k : ℕ}
    (hk : k < count) : hermitian count x k = dft .forward count (fun n => (s n : ℂ)) k := by
  rw [hermitian]
  split_ifs with hl
  · exact hx k hl
  · have hback : count - k + k = count * 1 := by omega
    rw [hx _ (by omega), conj_dft .forward hc hback]
    simp only [Complex.conj_ofReal]

end Extension

theorem parts_of_toComplex {z : Cplx ℝ} {a b : ℂ} (hz : z.toComplex = a + Complex.I * b)
    (ha : starRingEnd ℂ a = a) (hb : starRingEnd ℂ b = b) : (z.re : ℂ) = a ∧ (z.im : ℂ) = b := by
  obtain ⟨r, rfl⟩ := Complex.conj_eq_iff_real.1 ha
  obtain ⟨s, rfl⟩ := Complex.conj_eq_iff_real.1 hb
  have hre : z.re = r := by simpa using congrArg Complex.re hz
  have him : z.im = s := by simpa using congrArg Complex.im hz
  rw [hre, him]
  exact ⟨rfl, rfl⟩

section Samples

variable {j n : ℕ} {stored : Sense} {x : ℕ → Cplx ℝ}

theorem toComplex_reunitedBins
    (h : Divides (2 ^ (j + 1)) (unitTable n stored : Array (Cplx ℝ)))
    (hx : (x (2 ^ j)).im = 0) {k : ℕ} (hk : k < 2 ^ j) :
    (reunitedBins (unitTable n stored) stored j x k).toComplex =
      let y := hermitian (2 * 2 ^ j) fun k => (x k).toComplex
      y k + y (2 ^ j + k) +
        Complex.I * ((y k - y (2 ^ j + k)) * phase .inverse (2 * 2 ^ j) k) := by
  have hcount : 2 ^ (j + 1) = 2 * 2 ^ j := pow_succ' 2 j
  have hclose : starRingEnd ℂ (x (2 ^ j)).toComplex = (x (2 ^ j)).toComplex :=
    Complex.conj_eq_iff_im.2 hx
  rw [reunitedBins, crossed_apply _ _ (Nat.le_of_lt hk), Parts.toComplex_reunite,
    toComplex_view stored .inverse h (by omega), hcount]
  simp only [hermitian_low (Nat.le_of_lt hk),
    hermitian_high (x := fun k => (x k).toComplex) hclose]
  ring

theorem toComplex_pairSums (h : Divides (2 ^ (j + 1)) (unitTable n stored : Array (Cplx ℝ)))
    (hx : (x (2 ^ j)).im = 0) {t : ℕ} (ht : t < 2 ^ j) :
    (pairSums (unitTable n stored) stored j x t).toComplex =
      let s := dft .inverse (2 * 2 ^ j) (hermitian (2 * 2 ^ j) fun k => (x k).toComplex)
      s (2 * t) + Complex.I * s (2 * t + 1) := by
  have hpos := Nat.two_pow_pos j
  have hhalf := h.of_dvd (Nat.pow_dvd_pow 2 (Nat.le_succ j))
  rw [pairSums, toComplex_cascade_view stored .inverse hhalf _ ht,
    dft_congr .inverse fun k hk => toComplex_reunitedBins h hx hk]
  simp only [dft_even_bin .inverse hpos.ne', dft_odd_bin .inverse hpos.ne', dft_add_mul]

theorem ofReal_realSums (h : Divides (2 ^ j) (unitTable n stored : Array (Cplx ℝ)))
    (h0 : (x 0).im = 0) (hx : (x (2 ^ j / 2)).im = 0) {t : ℕ} (ht : t < 2 ^ j) :
    ((realSums (unitTable n stored) stored j x t : ℝ) : ℂ) =
      dft .inverse (2 ^ j) (hermitian (2 ^ j) fun k => (x k).toComplex) t := by
  have hreal (k : ℕ) (hk : (x k).im = 0) : starRingEnd ℂ (x k).toComplex = (x k).toComplex :=
    Complex.conj_eq_iff_im.2 hk
  cases j with
  | zero =>
      rw [pow_zero, dft_one, hermitian, if_pos (Nat.zero_le _)]
      exact Complex.conj_eq_iff_re.1 (hreal 0 h0)
  | succ j =>
      have hcount : 2 ^ (j + 1) = 2 * 2 ^ j := pow_succ' 2 j
      have hself := conj_dft_hermitian (x := fun k => (x k).toComplex)
        (hreal 0 h0) (hreal _ hx) .inverse
      rw [two_pow_succ_div_two] at hx
      have hpair := toComplex_pairSums h hx (t := t / 2) (by omega)
      rw [hcount] at hself ⊢
      obtain ⟨heven, hodd⟩ := parts_of_toComplex hpair (hself _) (hself _)
      rw [realSums, interleaved]
      split_ifs with hmod
      · have ht2 : 2 * (t / 2) = t := by omega
        rw [heven, ht2]
      · have ht2 : 2 * (t / 2) + 1 = t := by omega
        rw [hodd, ht2]

theorem ofReal_realSums_of_dft (h : Divides (2 ^ j) (unitTable n stored : Array (Cplx ℝ)))
    {s : ℕ → ℝ} (hx : ∀ k ≤ 2 ^ j / 2,
      (x k).toComplex = dft .forward (2 ^ j) (fun n => (s n : ℂ)) k) {t : ℕ} (ht : t < 2 ^ j) :
    ((realSums (unitTable n stored) stored j x t : ℝ) : ℂ) = 2 ^ j * s t := by
  have hc : 2 ^ j ≠ 0 := (Nat.two_pow_pos j).ne'
  have hreal (k p : ℕ) (hk : k ≤ 2 ^ j / 2) (hp : k + k = 2 ^ j * p) : (x k).im = 0 := by
    have hself : starRingEnd ℂ (x k).toComplex = (x k).toComplex := by
      rw [hx k hk, conj_dft .forward hc hp]
      simp only [Complex.conj_ofReal]
    exact Complex.conj_eq_iff_im.1 hself
  have hmid : (x (2 ^ j / 2)).im = 0 := by
    cases j with
    | zero => exact hreal 0 0 (Nat.zero_le _) rfl
    | succ j => exact hreal _ 1 le_rfl (by rw [two_pow_succ_div_two, pow_succ]; ring)
  rw [ofReal_realSums h (hreal 0 0 (Nat.zero_le _) rfl) hmid ht,
    dft_congr .inverse fun k hk => hermitian_dft hc hx hk, dft_dft (by decide) ht]
  norm_cast

end Samples

namespace Context

variable {ctx : Context ℝ} {j : ℕ} {input scratch : Array (Cplx ℝ)} {output : Array ℝ}

theorem inverse_real_exact (h : ctx.Reachable) (hreal : ctx.config.real = true)
    (hs : ctx.config.direction.supports .inverse = true) (hj : 2 ^ j ≤ ctx.maxCount)
    (hin : 2 ^ j / 2 + 1 ≤ input.size) (hout : 2 ^ j ≤ output.size)
    (hscratch : 2 ^ j / 2 + 1 ≤ scratch.size) :
    ∃ after ws, ctx.inverseReal (2 ^ j) input output = .ok (.accepted after) ∧
      ctx.inverseRealWith (2 ^ j) input ⟨output, scratch⟩ = .ok (.accepted ws) ∧
      ((points input 0).im = 0 → (points input (2 ^ j / 2)).im = 0 →
        let sums := dft .inverse (2 ^ j) (hermitian (2 ^ j) fun k => (points input k).toComplex)
        Holds Complex.ofReal after.2 (2 ^ j) sums ∧ Holds Complex.ofReal ws.output (2 ^ j) sums) ∧
      ∀ x : ℕ → ℝ, (∀ k ≤ 2 ^ j / 2,
          (points input k).toComplex = dft .forward (2 ^ j) (fun n => (x n : ℂ)) k) →
        Holds Complex.ofReal after.2 (2 ^ j) (fun n => 2 ^ j * x n) ∧
          Holds Complex.ofReal ws.output (2 ^ j) (fun n => 2 ^ j * x n) := by
  have hr := realRefusal?_eq_none_iff.2 ⟨hreal, refusal?_two_pow hj hs⟩
  have hd := h.sound.divides (realRefusal?_eq_none_iff.1 hr).2
  obtain ⟨own, hown, hlen⟩ := h.sound.scratch_serves hr
  obtain ⟨ctx', hafter, -⟩ := h.sound.inverseReal_eq hown (2 ^ j) input output
  rw [inverseReply_of_sizes hr hin hout hlen] at hafter
  have hws := h.sound.inverseRealWith_eq (2 ^ j) input ⟨output, scratch⟩
  rw [inverseReply_of_sizes hr hin hout hscratch] at hws
  refine ⟨_, _, hafter, hws, fun h0 hx => ?_, fun x hx => ?_⟩
  · have hsums := holds_fill hout fun t => ofReal_realSums hd h0 hx (t := t)
    exact ⟨hsums, hsums⟩
  · have hsums := holds_fill hout fun t => ofReal_realSums_of_dft hd hx (t := t)
    exact ⟨hsums, hsums⟩

theorem inverse_real_exact_eight :
    let ctx : Context ℝ := built ⟨8, .inverse, true, true⟩ ⟨8, 5⟩ (.fresh 13)
    let input : Array (Cplx ℝ) := Array.replicate 5 ⟨1, 0⟩
    let output : Array ℝ := Array.replicate 8 0
    let scratch : Array (Cplx ℝ) := Array.replicate 5 ⟨0, 0⟩
    let sums := dft .inverse (2 ^ 3) (hermitian (2 ^ 3) fun k => (points input k).toComplex)
    let impulse : ℕ → ℝ := fun n => if n = 0 then 1 else 0
    ∃ after ws, ctx.inverseReal (2 ^ 3) input output = .ok (.accepted after) ∧
      ctx.inverseRealWith (2 ^ 3) input ⟨output, scratch⟩ = .ok (.accepted ws) ∧
      (Holds Complex.ofReal after.2 (2 ^ 3) sums ∧ Holds Complex.ofReal ws.output (2 ^ 3) sums) ∧
      Holds Complex.ofReal after.2 (2 ^ 3) (fun n => 2 ^ 3 * impulse n) ∧
        Holds Complex.ofReal ws.output (2 ^ 3) (fun n => 2 ^ 3 * impulse n) := by
  intro ctx input output scratch sums impulse
  have hl : ctx.config.layout = .ok ⟨8, 5⟩ := by decide
  have h : ctx.Reachable := reachable_fresh hl (by decide)
  have hin : 2 ^ 3 / 2 + 1 ≤ input.size := by simp [input]
  have hout : 2 ^ 3 ≤ output.size := by simp [output]
  have hscratch : 2 ^ 3 / 2 + 1 ≤ scratch.size := by simp [scratch]
  obtain ⟨after, ws, hafter, hws, hsums, htrue⟩ :=
    inverse_real_exact h rfl rfl (by decide) hin hout hscratch
  have hone (k : ℕ) (hk : k < 5) : points input k = ⟨1, 0⟩ := by
    simp [points, input, hk]
  refine ⟨after, ws, hafter, hws, hsums ?_ ?_, htrue impulse fun k hk => ?_⟩
  · rw [hone 0 (by decide)]
  · rw [hone _ (by decide)]
  · rw [hone k (by omega)]
    simp [dft, impulse, Cplx.toComplex, Complex.ext_iff]

end Context

end DyadicFourier
