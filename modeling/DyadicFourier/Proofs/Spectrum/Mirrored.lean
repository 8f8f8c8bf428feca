import DyadicFourier.Spectrum
import DyadicFourier.Proofs.Cells.Map
import DyadicFourier.Proofs.Transform.Cascade

namespace DyadicFourier

variable {α β : Type}

/-- What a loop that writes `a i` at `i` and then `b i` at `half - i` leaves at `k`. -/
def mirrored (half : Nat) (a b : Nat → β) (k : Nat) : β :=
  if 2 * k < half then a k else b (half - k)

theorem mirrored_eq_left {half k : Nat} {a b : Nat → β} (h : b (half - k) = a k) :
    mirrored half a b k = a k := by
  rw [mirrored]
  split
  · rfl
  · exact h

theorem mirrored_congr {half k : Nat} {a a' b b' : Nat → β} (ha : ∀ i ≤ half, a i = a' i)
    (hb : ∀ i ≤ half, b i = b' i) : mirrored half a b k = mirrored half a' b' k := by
  rw [mirrored, mirrored, hb (half - k) (Nat.sub_le half k)]
  split
  · exact ha k (by omega)
  · rfl

namespace Cells

variable {step : Array β → Nat → Checked (Array β)} {half : Nat} {a b : Nat → β}
  {cells : Array β} {z : Nat → β}

def mirroredUpTo (half t : Nat) (a b z : Nat → β) (k : Nat) : β :=
  if k < t ∨ half < t + k then mirrored half a b k else z k

theorem mirroredUpTo_succ {t : Nat} (ht : t ≤ half / 2) {k : Nat} (hk : k < half + 1) :
    Function.update (Function.update (mirroredUpTo half t a b z) t (a t)) (half - t) (b t) k =
      mirroredUpTo half (t + 1) a b z k := by
  by_cases hb : k = half - t
  · subst hb
    have hpast : half < t + 1 + (half - t) := by omega
    have hlate : ¬2 * (half - t) < half := by omega
    have hback : half - (half - t) = t := by omega
    simp [mirroredUpTo, mirrored, hpast, hlate, hback]
  rw [Function.update_of_ne hb]
  by_cases ha : k = t
  · subst ha
    have hearly : 2 * k < half := by omega
    simp [mirroredUpTo, mirrored, hearly]
  rw [Function.update_of_ne ha]
  have hiff : (k < t ∨ half < t + k) ↔ (k < t + 1 ∨ half < t + 1 + k) := by omega
  simp only [mirroredUpTo, hiff]

theorem foldlM_mirrored
    (hstep : ∀ i ≤ half / 2, ∀ f : Nat → β, f i = z i → f (half - i) = z (half - i) →
      step (fill cells (half + 1) f) i = .ok (fill cells (half + 1)
        (Function.update (Function.update f i (a i)) (half - i) (b i)))) :
    (List.range (half / 2 + 1)).foldlM step (fill cells (half + 1) z) =
      .ok (fill cells (half + 1) (mirrored half a b)) := by
  have hpassed (t : Nat) (ht : t ≤ half / 2 + 1) :
      (List.range t).foldlM step (fill cells (half + 1) z) =
        .ok (fill cells (half + 1) (mirroredUpTo half t a b z)) := by
    induction t with
    | zero =>
        simp only [List.range_zero, List.foldlM_nil, pure_eq_ok]
        congr 1
        apply fill_congr
        intro k hk
        have hn : ¬(k < 0 ∨ half < 0 + k) := by omega
        rw [mirroredUpTo, if_neg hn]
    | succ t ih =>
        have hi : mirroredUpTo half t a b z t = z t := by
          rw [mirroredUpTo, if_neg (by omega)]
        have hj : mirroredUpTo half t a b z (half - t) = z (half - t) := by
          rw [mirroredUpTo, if_neg (by omega)]
        rw [foldlM_range_succ, ih (by omega), ok_bind, hstep t (by omega) _ hi hj]
        congr 1
        exact fill_congr fun k hk => mirroredUpTo_succ (by omega) hk
  rw [hpassed _ (Nat.le_refl _)]
  congr 1
  apply fill_congr
  intro k hk
  have hall : k < half / 2 + 1 ∨ half < half / 2 + 1 + k := by omega
  rw [mirroredUpTo, if_pos hall]

end Cells

variable [Scalar α] {join : Cplx α → Parts α → Cplx α} {tw : Twiddles α} {w : Nat → Cplx α}

def crossed (join : Cplx α → Parts α → Cplx α) (w : Nat → Cplx α) (half : Nat)
    (z : Nat → Cplx α) : Nat → Cplx α :=
  mirrored half (fun i => join (w i) (Parts.ofBins (z i) (z (half - i))))
    fun i => join (w (half - i)) (Parts.ofBins (z i) (z (half - i))).opposite

theorem crossed_congr {w' z z' : Nat → Cplx α} {half : Nat} (hw : ∀ k ≤ half, w k = w' k)
    (hz : ∀ k ≤ half, z k = z' k) : crossed join w half z = crossed join w' half z' := by
  funext k
  apply mirrored_congr
  · intro i hi
    rw [hw i hi, hz i hi, hz (half - i) (Nat.sub_le half i)]
  · intro i hi
    rw [hw (half - i) (Nat.sub_le half i), hz i hi, hz (half - i) (Nat.sub_le half i)]

theorem joinBins_fill {half i : Nat} (hw : ∀ k ≤ half, tw.get k = .ok (w k)) (hi : i ≤ half)
    {source cells : Array (Cplx α)} {z : Nat → Cplx α} (hz : source[i]? = some (z i))
    (hz' : source[half - i]? = some (z (half - i))) (hcells : half + 1 ≤ cells.size)
    (f : Nat → Cplx α) :
    joinBins join tw half source (Cells.fill cells (half + 1) f) i =
      .ok (Cells.fill cells (half + 1) (Function.update
        (Function.update f i (join (w i) (Parts.ofBins (z i) (z (half - i))))) (half - i)
        (join (w (half - i)) (Parts.ofBins (z i) (z (half - i))).opposite))) := by
  have hj : half - i ≤ half := Nat.sub_le half i
  have hm : Word.minus half i = .ok (half - i) := Word.minus_eq_ok_iff.2 ⟨hi, rfl⟩
  have hr := Cells.read_eq_ok_iff.2 hz
  have hr' := Cells.read_eq_ok_iff.2 hz'
  simp only [joinBins, oppositeParts, writeRow, hm, hr, hr', hw i hi, hw (half - i) hj,
    Cells.write_fill (Nat.lt_succ_of_le hi) hcells, Cells.write_fill (Nat.lt_succ_of_le hj) hcells,
    ok_bind, pure_eq_ok]

theorem separateAll_eq {count : Nat} (hw : ∀ k ≤ count / 2, tw.get k = .ok (w k))
    (out : Array (Cplx α)) (hout : count / 2 + 1 ≤ out.size) (z : Nat → Cplx α) :
    separateAll tw count (Cells.fill out (count / 2 + 1) z) =
      .ok (Cells.fill out (count / 2 + 1) (crossed Parts.separate w (count / 2) z)) := by
  have hquarter : count / 4 = count / 2 / 2 := by omega
  rw [separateAll, hquarter]
  apply Cells.foldlM_mirrored
  intro i hi f hfi hfj
  have hz : (Cells.fill out (count / 2 + 1) f)[i]? = some (z i) := by
    rw [Cells.getElem?_fill_of_lt (by omega) hout, hfi]
  have hz' : (Cells.fill out (count / 2 + 1) f)[count / 2 - i]? = some (z (count / 2 - i)) := by
    rw [Cells.getElem?_fill_of_lt (by omega) hout, hfj]
  exact joinBins_fill hw (by omega) hz hz' hout f

theorem reuniteAll_eq {count : Nat} (hw : ∀ k ≤ count / 2, tw.get k = .ok (w k))
    {input scratch : Array (Cplx α)} {x : Nat → Cplx α}
    (hx : ∀ k ≤ count / 2, input[k]? = some (x k)) (hscratch : count / 2 + 1 ≤ scratch.size) :
    reuniteAll tw count input scratch =
      .ok (Cells.fill scratch (count / 2 + 1) (crossed Parts.reunite w (count / 2) x)) := by
  have hquarter : count / 4 = count / 2 / 2 := by omega
  rw [reuniteAll, hquarter]
  nth_rewrite 1 [← Cells.fill_getD Cplx.zero scratch (count / 2 + 1)]
  apply Cells.foldlM_mirrored
  intro i hi f _ _
  exact joinBins_fill hw (by omega) (hx i (by omega)) (hx (count / 2 - i) (by omega)) hscratch f

end DyadicFourier
