import DyadicFourier.Proofs.Exact.Hermitian

namespace DyadicFourier

namespace Context

variable {A B : Context ℝ} {j : ℕ}

section Complex

variable {x out back : Array (Cplx ℝ)}

theorem Sound.transforms_invert (hA : A.Sound) (hB : B.Sound) {sense sense' : Sense}
    (hne : sense ≠ sense') (hrA : A.refusal? (2 ^ j) sense = none)
    (hrB : B.refusal? (2 ^ j) sense' = none) (hin : 2 ^ j ≤ x.size) (hout : 2 ^ j ≤ out.size)
    (hback : 2 ^ j ≤ back.size) :
    ∃ bins after, A.transformComplex sense (2 ^ j) x out = .ok (.accepted bins) ∧
      B.transformComplex sense' (2 ^ j) bins back = .ok (.accepted after) ∧
      Holds Cplx.toComplex after (2 ^ j) fun n => 2 ^ j * (points x n).toComplex := by
  obtain ⟨bins, hbins, hsums⟩ := hA.transformComplex_exact hrA hin hout
  obtain ⟨after, hafter, hagain⟩ := hB.transformComplex_exact hrB hsums.le_size hback
  refine ⟨bins, after, hbins, hafter, hagain.congr fun k hk => ?_⟩
  rw [dft_congr sense' fun n hn => hsums.points_eq hn, dft_dft hne hk]
  norm_cast

theorem complex_round_trip (hA : A.Reachable) (hB : B.Reachable)
    (hf : A.config.direction.supports .forward = true)
    (hi : B.config.direction.supports .inverse = true) (hjA : 2 ^ j ≤ A.maxCount)
    (hjB : 2 ^ j ≤ B.maxCount) (hin : 2 ^ j ≤ x.size) (hout : 2 ^ j ≤ out.size)
    (hback : 2 ^ j ≤ back.size) :
    (∃ bins after, A.forwardComplex (2 ^ j) x out = .ok (.accepted bins) ∧
      B.inverseComplex (2 ^ j) bins back = .ok (.accepted after) ∧
      Holds Cplx.toComplex after (2 ^ j) fun n => 2 ^ j * (points x n).toComplex) ∧
    ∃ sums after, B.inverseComplex (2 ^ j) x out = .ok (.accepted sums) ∧
      A.forwardComplex (2 ^ j) sums back = .ok (.accepted after) ∧
      Holds Cplx.toComplex after (2 ^ j) fun n => 2 ^ j * (points x n).toComplex := by
  have hrA := refusal?_two_pow hjA hf
  have hrB := refusal?_two_pow hjB hi
  constructor
  · exact hA.sound.transforms_invert hB.sound (by decide) hrA hrB hin hout hback
  · exact hB.sound.transforms_invert hA.sound (by decide) hrB hrA hin hout hback

theorem complex_round_trip_sixteen :
    let A : Context ℝ := built ⟨32, .both, true, true⟩ ⟨32, 17⟩ (.fresh 49)
    let B : Context ℝ := built ⟨16, .inverse, false, false⟩ ⟨16, 0⟩ (.fresh 16)
    let x : Array (Cplx ℝ) := Array.replicate 16 ⟨1, 2⟩
    (∃ bins after, A.forwardComplex (2 ^ 4) x x = .ok (.accepted bins) ∧
      B.inverseComplex (2 ^ 4) bins x = .ok (.accepted after) ∧
      Holds Cplx.toComplex after (2 ^ 4) fun n => 2 ^ 4 * (points x n).toComplex) ∧
    ∃ sums after, B.inverseComplex (2 ^ 4) x x = .ok (.accepted sums) ∧
      A.forwardComplex (2 ^ 4) sums x = .ok (.accepted after) ∧
      Holds Cplx.toComplex after (2 ^ 4) fun n => 2 ^ 4 * (points x n).toComplex := by
  intro A B x
  have hlA : A.config.layout = .ok ⟨32, 17⟩ := by decide
  have hlB : B.config.layout = .ok ⟨16, 0⟩ := by decide
  have hA : A.Reachable := reachable_fresh hlA (by decide)
  have hB : B.Reachable := reachable_fresh hlB (by decide)
  have hsize : 2 ^ 4 ≤ x.size := by simp [x]
  exact complex_round_trip hA hB rfl rfl (by decide) (by decide) hsize hsize hsize

end Complex

section Real

variable {x output : Array ℝ} {bins out : Array (Cplx ℝ)}

theorem Sound.samples_round_trip (hA : A.Sound) (hB : B.Sound)
    (hrA : A.realRefusal? (2 ^ j) .forward = none) (hrB : B.realRefusal? (2 ^ j) .inverse = none)
    (hin : 2 ^ j ≤ x.size) (hout : 2 ^ j / 2 + 1 ≤ out.size) (hback : 2 ^ j ≤ output.size) :
    ∃ bins after, A.forwardReal (2 ^ j) x out = .ok (.accepted bins) ∧
      B.inverseReal (2 ^ j) bins output = .ok (.accepted after) ∧
      Holds Complex.ofReal after.2 (2 ^ j) fun n => 2 * 2 ^ j * numbers x n := by
  obtain ⟨bins, hbins, hsums⟩ := hA.forwardReal_holds hrA hin hout
  obtain ⟨after, hafter, hfill⟩ := hB.inverseReal_samples hrB hsums.le_size hback
  have hd := hB.divides (realRefusal?_eq_none_iff.1 hrB).2
  refine ⟨bins, after, hbins, hafter, ?_⟩
  rw [hfill]
  apply holds_fill hback
  intro n hn
  have htwice (k : ℕ) (hk : k ≤ 2 ^ j / 2) : (points bins k).toComplex =
      dft .forward (2 ^ j) (fun n => ((2 * numbers x n : ℝ) : ℂ)) k := by
    rw [hsums.points_eq (Nat.lt_succ_of_le hk), ← dft_mul]
    simp only [Complex.ofReal_mul, Complex.ofReal_ofNat]
  rw [ofReal_realSums_of_dft hd htwice hn, Complex.ofReal_mul, Complex.ofReal_ofNat]
  ring

theorem Sound.spectrum_round_trip (hA : A.Sound) (hB : B.Sound)
    (hrA : A.realRefusal? (2 ^ j) .forward = none) (hrB : B.realRefusal? (2 ^ j) .inverse = none)
    (h0 : (points bins 0).im = 0) (hx : (points bins (2 ^ j / 2)).im = 0)
    (hin : 2 ^ j / 2 + 1 ≤ bins.size) (hout : 2 ^ j / 2 + 1 ≤ out.size)
    (hback : 2 ^ j ≤ output.size) :
    ∃ samples after, B.inverseReal (2 ^ j) bins output = .ok (.accepted samples) ∧
      A.forwardReal (2 ^ j) samples.2 out = .ok (.accepted after) ∧
      Holds Cplx.toComplex after (2 ^ j / 2 + 1)
        fun k => 2 * 2 ^ j * (points bins k).toComplex := by
  obtain ⟨samples, hsamples, hfill⟩ := hB.inverseReal_samples hrB hin hback
  have hd := hB.divides (realRefusal?_eq_none_iff.1 hrB).2
  have hsums : Holds Complex.ofReal samples.2 (2 ^ j)
      (dft .inverse (2 ^ j) (hermitian (2 ^ j) fun k => (points bins k).toComplex)) := by
    rw [hfill]
    exact holds_fill hback fun n => ofReal_realSums hd h0 hx (t := n)
  -- the factor 2 is the one that `forwardReal` brings: the sums carry none
  obtain ⟨after, hafter, hbins⟩ := hA.forwardReal_holds hrA hsums.le_size hout
  refine ⟨samples, after, hsamples, hafter, hbins.congr fun k hk => ?_⟩
  have hpos := Nat.two_pow_pos j
  have hlt : k < 2 ^ j := by omega
  rw [dft_congr .forward fun n hn => hsums.numbers_eq hn, dft_dft (by decide) hlt, hermitian,
    if_pos (Nat.le_of_lt_succ hk), mul_assoc]
  norm_cast

theorem real_round_trip (hA : A.Reachable) (hB : B.Reachable) (hrealA : A.config.real = true)
    (hrealB : B.config.real = true) (hf : A.config.direction.supports .forward = true)
    (hi : B.config.direction.supports .inverse = true) (hjA : 2 ^ j ≤ A.maxCount)
    (hjB : 2 ^ j ≤ B.maxCount) (hx : 2 ^ j ≤ x.size) (hbins : 2 ^ j / 2 + 1 ≤ bins.size)
    (hout : 2 ^ j / 2 + 1 ≤ out.size) (houtput : 2 ^ j ≤ output.size) :
    (∃ spectrum after, A.forwardReal (2 ^ j) x out = .ok (.accepted spectrum) ∧
      B.inverseReal (2 ^ j) spectrum output = .ok (.accepted after) ∧
      Holds Complex.ofReal after.2 (2 ^ j) fun n => 2 * 2 ^ j * numbers x n) ∧
    ((points bins 0).im = 0 → (points bins (2 ^ j / 2)).im = 0 →
      ∃ samples after, B.inverseReal (2 ^ j) bins output = .ok (.accepted samples) ∧
        A.forwardReal (2 ^ j) samples.2 out = .ok (.accepted after) ∧
        Holds Cplx.toComplex after (2 ^ j / 2 + 1)
          fun k => 2 * 2 ^ j * (points bins k).toComplex) := by
  have hrA := realRefusal?_eq_none_iff.2 ⟨hrealA, refusal?_two_pow hjA hf⟩
  have hrB := realRefusal?_eq_none_iff.2 ⟨hrealB, refusal?_two_pow hjB hi⟩
  constructor
  · exact hA.sound.samples_round_trip hB.sound hrA hrB hx hout houtput
  · intro h0 hmid
    exact hA.sound.spectrum_round_trip hB.sound hrA hrB h0 hmid hbins hout houtput

theorem real_round_trip_eight :
    let A : Context ℝ := built ⟨8, .forward, true, false⟩ ⟨8, 0⟩ (.fresh 8)
    let B : Context ℝ := built ⟨16, .both, true, true⟩ ⟨16, 9⟩ (.fresh 25)
    let x : Array ℝ := Array.replicate 8 3
    let bins : Array (Cplx ℝ) := Array.replicate 5 ⟨1, 0⟩
    (∃ spectrum after, A.forwardReal (2 ^ 3) x bins = .ok (.accepted spectrum) ∧
      B.inverseReal (2 ^ 3) spectrum x = .ok (.accepted after) ∧
      Holds Complex.ofReal after.2 (2 ^ 3) fun n => 2 * 2 ^ 3 * numbers x n) ∧
    ∃ samples after, B.inverseReal (2 ^ 3) bins x = .ok (.accepted samples) ∧
      A.forwardReal (2 ^ 3) samples.2 bins = .ok (.accepted after) ∧
      Holds Cplx.toComplex after (2 ^ 3 / 2 + 1)
        fun k => 2 * 2 ^ 3 * (points bins k).toComplex := by
  intro A B x bins
  have hlA : A.config.layout = .ok ⟨8, 0⟩ := by decide
  have hlB : B.config.layout = .ok ⟨16, 9⟩ := by decide
  have hA : A.Reachable := reachable_fresh hlA (by decide)
  have hB : B.Reachable := reachable_fresh hlB (by decide)
  have hx : 2 ^ 3 ≤ x.size := by simp [x]
  have hbins : 2 ^ 3 / 2 + 1 ≤ bins.size := by simp [bins]
  have him (k : ℕ) (hk : k < 5) : (points bins k).im = 0 := by
    simp [points, bins, hk]
  obtain ⟨hsamples, hspectrum⟩ :=
    real_round_trip hA hB rfl rfl rfl rfl (by decide) (by decide) hx hbins hbins hx
  exact ⟨hsamples, hspectrum (him 0 (by decide)) (him _ (by decide))⟩

end Real

end Context

end DyadicFourier
