import DyadicFourier.Proofs.Quarters.Lanes
import DyadicFourier.Proofs.Transform.Descent
import Mathlib.Tactic.Ring

namespace DyadicFourier

variable {α : Type} [Scalar α]

/-- The transform of the `2 ^ m` points `x 0`, `x 1`, … as four transforms of every fourth point,
joined row by row. Neither cells nor a kernel occur in it. -/
def cascade (sense : Sense) (w : Nat → Cplx α) : Nat → Nat → (Nat → Cplx α) → Nat → Cplx α
  | 0, _, x, _ => x 0
  | 1, _, x, k => if k = 0 then x 0 + x 1 else x 0 - x 1
  | 2, _, x, k => (butterfly sense (Row.ofFn x)).get k
  | m + 3, stride, x, k =>
    (joinRow sense w stride (k % 2 ^ (m + 1)) (Row.ofFn fun q =>
      cascade sense w (m + 1) (stride * 4) (fun t => x (q + 4 * t)) (k % 2 ^ (m + 1)))).get
        (k / 2 ^ (m + 1))

theorem four_mul_two_pow (m : Nat) : 4 * 2 ^ (m + 1) = 2 ^ (m + 3) := by ring

theorem cascade_congr {sense : Sense} {w : Nat → Cplx α} {m stride : Nat} {x y : Nat → Cplx α}
    (h : ∀ t < 2 ^ m, x t = y t) (k : Nat) :
    cascade sense w m stride x k = cascade sense w m stride y k := by
  induction m using Nat.strong_induction_on generalizing stride x y k with
  | _ m ih =>
    match m with
    | 0 => exact h 0 (by omega)
    | 1 => simp only [cascade, h 0 (by omega), h 1 (by omega)]
    | 2 =>
        simp only [cascade, Row.ofFn, h 0 (by omega), h 1 (by omega), h 2 (by omega),
          h 3 (by omega)]
    | m + 3 =>
        have hq (q : Nat) (hq : q < 4) :
            cascade sense w (m + 1) (stride * 4) (fun t => x (q + 4 * t)) (k % 2 ^ (m + 1)) =
              cascade sense w (m + 1) (stride * 4) (fun t => y (q + 4 * t)) (k % 2 ^ (m + 1)) :=
          ih (m + 1) (by omega) (fun t ht => h _ (by rw [← four_mul_two_pow]; omega)) _
        simp only [cascade, Row.ofFn, hq 0 (by omega), hq 1 (by omega), hq 2 (by omega),
          hq 3 (by omega)]

theorem row_step_lt {m stride i c : Nat} (hs : 0 < stride) (hi : i < 2 ^ (m + 1)) (hc : c ≤ 3) :
    c * i * stride < stride * 2 ^ (m + 3) := by
  have hpow := four_mul_two_pow m
  have hci : c * i ≤ 3 * i := Nat.mul_le_mul_right i hc
  rw [Nat.mul_comm stride]
  exact Nat.mul_lt_mul_of_pos_right (by omega) hs

theorem joinRow_congr {sense : Sense} {w w' : Nat → Cplx α} {stride i : Nat}
    (h : ∀ c ≤ 3, w (c * i * stride) = w' (c * i * stride)) (f : Row α) :
    joinRow sense w stride i f = joinRow sense w' stride i f := by
  have h1 := h 1 (by omega)
  rw [Nat.one_mul] at h1
  rw [joinRow, joinRow, h1, h 2 (by omega), h 3 (by omega)]

theorem cascade_congr_roots {sense : Sense} {w w' : Nat → Cplx α} {m stride : Nat}
    (hs : 0 < stride) (h : ∀ k < stride * 2 ^ m, w k = w' k) (x : Nat → Cplx α) :
    cascade sense w m stride x = cascade sense w' m stride x := by
  induction m using Nat.strong_induction_on generalizing stride x with
  | _ m ih =>
    funext k
    match m with
    | 0 => rfl
    | 1 => rfl
    | 2 => rfl
    | m + 3 =>
        -- the stride grows as the length shrinks, so every level asks for roots below one bound
        have hpow : stride * 4 * 2 ^ (m + 1) = stride * 2 ^ (m + 3) := by
          rw [Nat.mul_assoc, four_mul_two_pow]
        have hq (q : Nat) := ih (m + 1) (by omega) (Nat.mul_pos hs (by omega)) (hpow ▸ h)
          fun t => x (q + 4 * t)
        have hrow : k % 2 ^ (m + 1) < 2 ^ (m + 1) := Nat.mod_lt _ (Nat.two_pow_pos _)
        simp only [cascade, hq]
        rw [joinRow_congr fun c hc => h _ (row_step_lt hs hrow hc)]

structure Feeds (tw : Twiddles α) (w : Nat → Cplx α) (input : Array (Cplx α))
    (m offset stride : Nat) (x : Nat → Cplx α) : Prop where
  offset_lt : offset < stride
  fits : Word.Fits (stride * 2 ^ m)
  get_eq : ∀ k < stride * 2 ^ m, tw.get k = .ok (w k)
  input_eq : ∀ t < 2 ^ m, input[offset + t * stride]? = some (x t)

namespace Feeds

variable {tw : Twiddles α} {w : Nat → Cplx α} {input : Array (Cplx α)} {m offset stride : Nat}
  {x : Nat → Cplx α}

theorem read (h : Feeds tw w input m offset stride x) {t : Nat} (ht : t < 2 ^ m) :
    Cells.read input (offset + t * stride) = .ok (x t) :=
  Cells.read_eq_ok_iff.2 (h.input_eq t ht)

theorem fits_index (h : Feeds tw w input m offset stride x) {t : Nat} (ht : t < 2 ^ m) :
    Word.Fits (offset + t * stride) := by
  have hle : (t + 1) * stride ≤ 2 ^ m * stride := Nat.mul_le_mul_right stride ht
  have hoff := h.offset_lt
  rw [Nat.succ_mul, Nat.mul_comm (2 ^ m)] at hle
  exact h.fits.mono (by omega)

theorem fits_times (h : Feeds tw w input m offset stride x) {t : Nat} (ht : t < 2 ^ m) :
    Word.Fits (t * stride) :=
  (h.fits_index ht).mono (Nat.le_add_left _ _)

theorem quarter (h : Feeds tw w input (m + 3) offset stride x) {q : Nat} (hq : q < 4) :
    Feeds tw w input (m + 1) (offset + q * stride) (stride * 4) fun t => x (q + 4 * t) := by
  have hoff := h.offset_lt
  have hpow : stride * 4 * 2 ^ (m + 1) = stride * 2 ^ (m + 3) := by
    rw [Nat.mul_assoc, four_mul_two_pow]
  constructor
  · have hqs : q * stride ≤ 3 * stride := Nat.mul_le_mul_right stride (by omega)
    omega
  · exact hpow ▸ h.fits
  · exact hpow ▸ h.get_eq
  · intro t ht
    have hidx : offset + q * stride + t * (stride * 4) = offset + (q + 4 * t) * stride := by ring
    rw [hidx]
    apply h.input_eq
    rw [← four_mul_two_pow]
    omega

theorem serves (h : Feeds tw w input (m + 3) offset stride x) :
    tw.Serves w stride (2 ^ (m + 1)) := by
  have hs : 0 < stride := Nat.lt_of_le_of_lt (Nat.zero_le _) h.offset_lt
  constructor
  · rw [four_mul_two_pow]
    exact h.fits.mono (Nat.le_mul_of_pos_left _ hs)
  · intro i hi c _ hc
    exact h.fits.mono (Nat.le_of_lt (row_step_lt hs hi hc))
  · intro i hi c _ hc
    exact h.get_eq _ (row_step_lt hs hi hc)

end Feeds

section Transform

variable {tw : Twiddles α} {w : Nat → Cplx α} {input out : Array (Cplx α)} {offset stride : Nat}
  {x : Nat → Cplx α}

theorem transform_one (kernel : Kernel) (h : Feeds tw w input 0 offset stride x)
    (hout : out.size = 1) : transform kernel tw input offset stride out =
      .ok (Cells.tabulate 1 (cascade tw.sense w 0 stride x)) := by
  have hr := h.read (t := 0) (by omega)
  simp only [Nat.zero_mul, Nat.add_zero] at hr
  rw [transform_of_one hout, hr]
  rfl

theorem transform_two (kernel : Kernel) (h : Feeds tw w input 1 offset stride x)
    (hout : out.size = 2) : transform kernel tw input offset stride out =
      .ok (Cells.tabulate 2 (cascade tw.sense w 1 stride x)) := by
  have hr0 := h.read (t := 0) (by omega)
  have hr1 := h.read (t := 1) (by omega)
  have hf1 := h.fits_index (t := 1) (by omega)
  simp only [Nat.zero_mul, Nat.add_zero, Nat.one_mul] at hr0 hr1 hf1
  rw [transform_of_two hout]
  simp only [hr0, hr1, Word.plus_of_fits hf1, ok_bind]
  rfl

theorem transform_four (kernel : Kernel) (h : Feeds tw w input 2 offset stride x)
    (hout : out.size = 4) : transform kernel tw input offset stride out =
      .ok (Cells.tabulate 4 (cascade tw.sense w 2 stride x)) := by
  have hr0 := h.read (t := 0) (by omega)
  have hr1 := h.read (t := 1) (by omega)
  have hf1 := h.fits_index (t := 1) (by omega)
  simp only [Nat.zero_mul, Nat.add_zero, Nat.one_mul] at hr0 hr1 hf1
  rw [transform_of_four hout]
  simp only [hr0, hr1, h.read (t := 2) (by omega), h.read (t := 3) (by omega),
    Word.plus_of_fits hf1, Word.times_of_fits (h.fits_times (t := 2) (by omega)),
    Word.times_of_fits (h.fits_times (t := 3) (by omega)),
    Word.plus_of_fits (h.fits_index (t := 2) (by omega)),
    Word.plus_of_fits (h.fits_index (t := 3) (by omega)), ok_bind]
  rfl

theorem transform_quarters (kernel : Kernel) {m : Nat}
    (h : Feeds tw w input (m + 3) offset stride x) (hout : out.size = 2 ^ (m + 3))
    {F : Nat → Nat → Cplx α} (hF : ∀ q < 4, ∀ part : Array (Cplx α), part.size = 2 ^ (m + 1) →
      transform kernel tw input (offset + q * stride) (stride * 4) part =
        .ok (Cells.tabulate (2 ^ (m + 1)) (F q))) :
    transform kernel tw input offset stride out =
      .ok (Quarters.ofRows (2 ^ (m + 1)) fun i =>
        joinRow tw.sense w stride i (Row.ofFn fun q => F q i)).toArray := by
  have hpow := four_mul_two_pow m
  have h2 : 2 ≤ 2 ^ (m + 1) := by rw [Nat.pow_succ]; have := Nat.two_pow_pos m; omega
  obtain ⟨hq0, hq1, hq2, hq3⟩ := Quarters.size_ofArray (n := 2 ^ (m + 1)) (hpow ▸ hout)
  have hlt {t : Nat} (ht : t < 4) : t < 2 ^ (m + 3) := by omega
  have hs4 : Word.Fits (stride * 4) := h.fits.mono (Nat.mul_le_mul_left stride (by omega))
  have hf0 := hF 0 (by omega) _ hq0
  have hf1 := hF 1 (by omega) _ hq1
  have hp1 := h.fits_index (hlt (t := 1) (by omega))
  simp only [Nat.zero_mul, Nat.add_zero, Nat.one_mul] at hf0 hf1 hp1
  rw [transform_of_quarters (by omega)]
  simp only [Word.times_of_fits hs4, Word.plus_of_fits hp1,
    Word.times_of_fits (h.fits_times (hlt (t := 2) (by omega))),
    Word.times_of_fits (h.fits_times (hlt (t := 3) (by omega))),
    Word.plus_of_fits (h.fits_index (hlt (t := 2) (by omega))),
    Word.plus_of_fits (h.fits_index (hlt (t := 3) (by omega))), ok_bind, hf0, hf1,
    hF 2 (by omega) _ hq2, hF 3 (by omega) _ hq3]
  exact kernel.combine_ofRows h.serves fun i => Row.ofFn fun q => F q i

theorem transform_eq_cascade (kernel : Kernel) {m : Nat}
    (h : Feeds tw w input m offset stride x) (hout : out.size = 2 ^ m) :
    transform kernel tw input offset stride out =
      .ok (Cells.tabulate (2 ^ m) (cascade tw.sense w m stride x)) := by
  induction m using Nat.strong_induction_on generalizing offset stride x out with
  | _ m ih =>
    match m with
    | 0 => exact transform_one kernel h hout
    | 1 => exact transform_two kernel h hout
    | 2 => exact transform_four kernel h hout
    | m + 3 =>
        have hrec := transform_quarters kernel h hout
          fun q hq part hpart => ih (m + 1) (by omega) (h.quarter hq) hpart
        rw [hrec, Quarters.toArray_ofRows, four_mul_two_pow]
        rfl

end Transform

end DyadicFourier
