import DyadicFourier.Kernel
import DyadicFourier.Proofs.Quarters.Joining

namespace DyadicFourier

variable {α : Type}

def Quad.pack (f : Nat → Cplx α) : Cplx (Quad α) :=
  ⟨⟨(f 0).re, (f 1).re, (f 2).re, (f 3).re⟩, ⟨(f 0).im, (f 1).im, (f 2).im, (f 3).im⟩⟩

namespace Cells

variable {n i : Nat} {f : Nat → Cplx α}

theorem load_tabulate (h : i + 4 ≤ n) :
    load (tabulate n f) i = .ok (Quad.pack fun l => f (i + l)) := by
  simp only [load, readPair, read_tabulate (by omega : i < n), read_tabulate (by omega : i + 1 < n),
    read_tabulate (by omega : i + 2 < n), read_tabulate (by omega : i + 2 + 1 < n),
    ok_bind, pure_eq_ok]
  rfl

theorem store_tabulate (h : i + 4 ≤ n) (g : Nat → Cplx α) :
    store (tabulate n f) i (Quad.pack g) =
      .ok (tabulate n fun j => if i ≤ j ∧ j < i + 4 then g (j - i) else f j) := by
  simp only [store, writePair, write_tabulate (by omega : i < n),
    write_tabulate (by omega : i + 1 < n), write_tabulate (by omega : i + 2 < n),
    write_tabulate (by omega : i + 2 + 1 < n), ok_bind]
  congr 1
  apply tabulate_congr
  intro j _
  by_cases hj : i ≤ j ∧ j < i + 4
  · obtain ⟨l, rfl⟩ := Nat.exists_eq_add_of_le hj.1
    have hl : l < 4 := by omega
    interval_cases l <;>
      simp [Function.update, Quad.pack, Quad.interleaveLow, Quad.interleaveHigh, Nat.add_assoc]
  · have h0 : j ≠ i := by omega
    have h1 : j ≠ i + 1 := by omega
    have h2 : j ≠ i + 2 := by omega
    have h3 : j ≠ i + 2 + 1 := by omega
    simp only [Function.update_of_ne h0, Function.update_of_ne h1, Function.update_of_ne h2,
      Function.update_of_ne h3, if_neg hj]

end Cells

variable [Scalar α]

namespace Quad

theorem pack_add (f g : Nat → Cplx α) : pack f + pack g = pack fun l => f l + g l := rfl

theorem pack_sub (f g : Nat → Cplx α) : pack f - pack g = pack fun l => f l - g l := rfl

theorem pack_mul (f g : Nat → Cplx α) : pack f * pack g = pack fun l => f l * g l := rfl

theorem pack_addI (f g : Nat → Cplx α) :
    (pack f).addI (pack g) = pack fun l => (f l).addI (g l) := rfl

theorem pack_subI (f g : Nat → Cplx α) :
    (pack f).subI (pack g) = pack fun l => (f l).subI (g l) := rfl

end Quad

namespace Lanes

variable {tw : Twiddles α} {w : Nat → Cplx α} {stride n i : Nat}

theorem gather_eq (h : tw.Serves w stride n) (hi : i + 4 ≤ n) {c : Nat} (h1 : 1 ≤ c)
    (h3 : c ≤ 3) :
    gather tw i (c * stride) = .ok (Quad.pack fun l => w (c * (i + l) * stride)) := by
  have hword (l : Nat) (hl : l < 4) : Word.Fits (i + l) := h.fits_rows.mono (by omega)
  have hcomm (l : Nat) : (i + l) * (c * stride) = c * (i + l) * stride := by
    rw [← Nat.mul_assoc, Nat.mul_comm (i + l) c]
  have hstep (l : Nat) (hl : l < 4) : Word.times (i + l) (c * stride) =
      .ok (c * (i + l) * stride) := by
    rw [← hcomm]
    exact Word.times_of_fits (hcomm l ▸ h.fits_step (i + l) (by omega) c h1 h3)
  have hget (l : Nat) (hl : l < 4) := h.get_eq (i + l) (by omega) c h1 h3
  have hs0 := hstep 0 (by omega)
  have hg0 := hget 0 (by omega)
  rw [Nat.add_zero] at hs0 hg0
  rw [gather, hs0, Word.plus_of_fits (hword 1 (by omega)), Word.plus_of_fits (hword 2 (by omega)),
    Word.plus_of_fits (hword 3 (by omega))]
  simp only [ok_bind, hg0, hstep 1 (by omega), hstep 2 (by omega), hstep 3 (by omega),
    hget 1 (by omega), hget 2 (by omega), hget 3 (by omega)]
  rfl

theorem times_stride (h : tw.Serves w stride n) (hi : i + 4 ≤ n) {c : Nat} (h3 : c ≤ 3) :
    Word.times c stride = .ok (c * stride) := by
  have hle : c * stride ≤ 3 * (i + 1) * stride := Nat.mul_le_mul_right stride (by omega)
  exact Word.times_of_fits ((h.fits_step (i + 1) (by omega) 3 (by omega) (by omega)).mono hle)

theorem combineFour_ofRows (h : tw.Serves w stride n) (f : Nat → Row α) (hi : i + 4 ≤ n) :
    combineFour tw stride (Quarters.ofRows n f) i =
      .ok (Quarters.ofRows n (Quarters.joined (joinRow tw.sense w stride) i (i + 4) f)) := by
  have hw1 := gather_eq h hi (c := 1) (by omega) (by omega)
  have hw2 := gather_eq h hi (c := 2) (by omega) (by omega)
  have hw3 := gather_eq h hi (c := 3) (by omega) (by omega)
  simp only [Nat.one_mul] at hw1
  simp only [Quarters.ofRows, combineFour, Cells.load_tabulate hi, hw1, hw2, hw3,
    times_stride h hi (c := 2) (by omega), times_stride h hi (c := 3) (by omega), ok_bind,
    Quad.pack_add, Quad.pack_sub, Quad.pack_mul, Quad.pack_addI, Quad.pack_subI,
    Cells.store_tabulate hi]
  cases hs : tw.sense
  all_goals
    simp only [pure_eq_ok]
    congr 2
  all_goals
    apply Cells.tabulate_congr
    intro j _
    by_cases hj : i ≤ j ∧ j < i + 4
    · simp [hj, Quarters.joined, joinRow, butterfly]
    · simp [hj, Quarters.joined]

end Lanes

namespace Kernel

variable {tw : Twiddles α} {w : Nat → Cplx α} {stride n : Nat}

theorem combine_ofRows (kernel : Kernel) (h : tw.Serves w stride n) (f : Nat → Row α) :
    kernel.combine tw stride (Quarters.ofRows n f).toArray =
      .ok (Quarters.ofRows n fun i => joinRow tw.sense w stride i (f i)).toArray := by
  have hall : Quarters.ofRows n (Quarters.joined (joinRow tw.sense w stride) 0 n f) =
      Quarters.ofRows n fun i => joinRow tw.sense w stride i (f i) :=
    Quarters.ofRows_congr fun i hi => by simp [Quarters.joined, hi]
  cases kernel with
  | rows =>
      rw [combine, Rows.combine, Quarters.ofArray_toArray_ofRows,
        Rows.combineFrom_ofRows h f (Nat.zero_le n), hall]
      rfl
  | lanes =>
      have hsize : (Quarters.ofRows n f).toArray.size / 4 = n := by
        rw [Quarters.toArray_ofRows, Cells.size_tabulate]
        omega
      have hlanes : 0 + (n - n % 4) / 4 * 4 = n - n % 4 := by omega
      have hfour := Quarters.foldlM_joined (b := 4)
        (fun f i hi => Lanes.combineFour_ofRows h f hi) ((n - n % 4) / 4) 0 f (by omega)
      rw [hlanes] at hfour
      -- the rows left over are those from `n - n % 4` on
      simp only [combine, Lanes.combine, hsize, Quarters.ofArray_toArray_ofRows, hfour,
        ok_bind, Rows.combineFrom_ofRows h _ (Nat.sub_le n (n % 4)),
        Quarters.joined_joined _ (Nat.zero_le _) (Nat.sub_le n (n % 4)), hall]
      rfl

end Kernel

end DyadicFourier
