import DyadicFourier.Rows
import DyadicFourier.Proofs.Quarters.Family

namespace DyadicFourier

variable {α : Type}

namespace Quarters

def joined (g : Nat → Row α → Row α) (lo hi : Nat) (f : Nat → Row α) : Nat → Row α :=
  fun i => if lo ≤ i ∧ i < hi then g i (f i) else f i

theorem joined_succ (g : Nat → Row α → Row α) (i : Nat) (f : Nat → Row α) :
    joined g i (i + 1) f = Function.update f i (g i (f i)) := by
  funext j
  by_cases hj : j = i
  · subst hj
    simp [joined]
  · have hn : ¬(i ≤ j ∧ j < i + 1) := by omega
    rw [joined, if_neg hn, Function.update_of_ne hj]

theorem joined_empty (g : Nat → Row α → Row α) (lo : Nat) (f : Nat → Row α) :
    joined g lo lo f = f := by
  funext i
  have hn : ¬(lo ≤ i ∧ i < lo) := by omega
  rw [joined, if_neg hn]

theorem joined_joined (g : Nat → Row α → Row α) {lo mid hi : Nat} (h : lo ≤ mid) (h' : mid ≤ hi)
    (f : Nat → Row α) : joined g mid hi (joined g lo mid f) = joined g lo hi f := by
  funext i
  by_cases h1 : i < mid
  · have hl : i < hi := by omega
    simp [joined, h1, hl]
  · have hn : ¬(lo ≤ i ∧ i < mid) := by omega
    have hl : (mid ≤ i ∧ i < hi) ↔ (lo ≤ i ∧ i < hi) := by omega
    simp only [joined, if_neg hn, hl]

theorem foldlM_joined {n b : Nat} {step : Quarters α → Nat → Checked (Quarters α)}
    {g : Nat → Row α → Row α} (hstep : ∀ f i, i + b ≤ n →
      step (ofRows n f) i = .ok (ofRows n (joined g i (i + b) f)))
    (k start : Nat) (f : Nat → Row α) (hk : start + k * b ≤ n) :
    (List.range' start k b).foldlM step (ofRows n f) =
      .ok (ofRows n (joined g start (start + k * b) f)) := by
  induction k generalizing start f with
  | zero => simp [joined_empty]
  | succ k ih =>
      rw [Nat.succ_mul] at hk
      have hrest : start + b + k * b ≤ n := by omega
      have hend : start + b + k * b = start + (k + 1) * b := by rw [Nat.succ_mul]; omega
      rw [List.range'_succ, List.foldlM_cons, hstep f start (by omega), ok_bind,
        ih (start + b) _ hrest, hend, joined_joined g (by omega) (by omega)]

end Quarters

variable [Scalar α]

def joinRow (sense : Sense) (w : Nat → Cplx α) (stride i : Nat) (f : Row α) : Row α :=
  butterfly sense
    ⟨f.x0, f.x1 * w (i * stride), f.x2 * w (2 * i * stride), f.x3 * w (3 * i * stride)⟩

/-- What a kernel relies on to join `n` rows at `stride`: all that it reads of the roots is there,
and it is `w`. -/
structure Twiddles.Serves (tw : Twiddles α) (w : Nat → Cplx α) (stride n : Nat) : Prop where
  fits_rows : Word.Fits (4 * n)
  fits_step : ∀ i < n, ∀ c, 1 ≤ c → c ≤ 3 → Word.Fits (c * i * stride)
  get_eq : ∀ i < n, ∀ c, 1 ≤ c → c ≤ 3 → tw.get (c * i * stride) = .ok (w (c * i * stride))

namespace Rows

variable {tw : Twiddles α} {w : Nat → Cplx α} {stride n : Nat}

theorem combineRow_ofRows (h : tw.Serves w stride n) (f : Nat → Row α) {i : Nat} (hi : i < n) :
    combineRow tw stride (Quarters.ofRows n f) i =
      .ok (Quarters.ofRows n (Function.update f i (joinRow tw.sense w stride i (f i)))) := by
  have h4 := h.fits_rows
  have hw1 := h.get_eq i hi 1 (by omega) (by omega)
  have hf1 := h.fits_step i hi 1 (by omega) (by omega)
  rw [Nat.one_mul] at hw1 hf1
  rw [combineRow, Quarters.row_ofRows hi, Word.times_of_fits hf1,
    Word.times_of_fits (h4.mono (by omega : 2 * i ≤ 4 * n)),
    Word.times_of_fits (h4.mono (by omega : 3 * i ≤ 4 * n))]
  simp only [ok_bind, hw1,
    Word.times_of_fits (h.fits_step i hi 2 (by omega) (by omega)),
    Word.times_of_fits (h.fits_step i hi 3 (by omega) (by omega)),
    h.get_eq i hi 2 (by omega) (by omega), h.get_eq i hi 3 (by omega) (by omega)]
  exact Quarters.setRow_ofRows hi

theorem combineFrom_ofRows (h : tw.Serves w stride n) (f : Nat → Row α) {start : Nat}
    (hs : start ≤ n) : combineFrom tw stride start (Quarters.ofRows n f) =
      .ok (Quarters.ofRows n (Quarters.joined (joinRow tw.sense w stride) start n f)) := by
  have hstep (f : Nat → Row α) (i : Nat) (hi : i + 1 ≤ n) :
      combineRow tw stride (Quarters.ofRows n f) i = .ok (Quarters.ofRows n
        (Quarters.joined (joinRow tw.sense w stride) i (i + 1) f)) := by
    rw [combineRow_ofRows h f hi, Quarters.joined_succ]
  have hend : start + (n - start) * 1 = n := by omega
  have hloop := Quarters.foldlM_joined hstep (n - start) start f (by omega)
  rw [hend] at hloop
  rw [combineFrom, Quarters.size_q0_ofRows]
  exact hloop

end Rows

end DyadicFourier
