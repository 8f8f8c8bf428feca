import DyadicFourier.Proofs.Cells.Map
import DyadicFourier.Proofs.Exact.Arithmetic

namespace DyadicFourier

theorem Cells.write_again {β : Type} (cells : Array β) (i : Nat) (x : β) :
    (write cells i x >>= fun cells => write cells i x) = write cells i x := by
  by_cases h : i < cells.size
  · rw [write_of_lt h, ok_bind, write_of_lt (by simpa using h), Array.set_set]
  · rw [write, dif_neg h]
    rfl

section Iterations

variable {α : Type} [Scalar α]

def rowValues (join : Cplx α → Parts α → Cplx α) (tw : Twiddles α) (half : Nat)
    (source : Array (Cplx α)) (i : Nat) : Checked (Cplx α × Cplx α) := do
  let (j, p) ← oppositeParts half source i
  return (join (← tw.get i) p, join (← tw.get j) p.opposite)

inductive Side where
  | near
  | far
  deriving DecidableEq, Repr

def joinOnce (kept : Side) (join : Cplx α → Parts α → Cplx α) (tw : Twiddles α) (half : Nat)
    (source cells : Array (Cplx α)) (i : Nat) : Checked (Array (Cplx α)) := do
  let (j, p) ← oppositeParts half source i
  match kept with
  | .near => writeRow join tw cells i p
  | .far => writeRow join tw cells j p.opposite

variable {join : Cplx α → Parts α → Cplx α} {tw : Twiddles α} {half i t : Nat}
  {source cells after : Array (Cplx α)} {p : Parts α}

theorem oppositeParts_eq_ok_iff {j : Nat} : oppositeParts half source i = .ok (j, p) ↔
    (i ≤ half ∧ half - i = j) ∧ ∃ z z', Cells.read source i = .ok z ∧
      Cells.read source j = .ok z' ∧ p = Parts.ofBins z z' := by
  simp only [oppositeParts, bind_eq_ok_iff, pure_eq_ok, Except.ok.injEq, Prod.mk.injEq]
  constructor
  · rintro ⟨j, hj, z, hz, z', hz', rfl, rfl⟩
    exact ⟨Word.minus_eq_ok_iff.1 hj, z, z', hz, hz', rfl⟩
  · rintro ⟨hj, z, z', hz, hz', rfl⟩
    exact ⟨j, Word.minus_eq_ok_iff.2 hj, z, hz, z', hz', rfl, rfl⟩

theorem writeRow_eq_ok_iff : writeRow join tw cells i p = .ok after ↔
    ∃ w, tw.get i = .ok w ∧ Cells.write cells i (join w p) = .ok after :=
  bind_eq_ok_iff

theorem writeRow_again (join : Cplx α → Parts α → Cplx α) (tw : Twiddles α)
    (cells : Array (Cplx α)) (i : Nat) (p : Parts α) :
    (writeRow join tw cells i p >>= fun cells => writeRow join tw cells i p) =
      writeRow join tw cells i p := by
  simp only [writeRow]
  cases tw.get i with
  | error fault => rfl
  | ok w => exact Cells.write_again cells i (join w p)

theorem getElem?_joinBins {k : Nat} (h : joinBins join tw half source cells i = .ok after)
    (hi : i ≠ k) (hj : k + i ≠ half) : after[k]? = cells[k]? := by
  rw [joinBins, bind_eq_ok_iff] at h
  obtain ⟨⟨j, p⟩, hparts, h⟩ := h
  obtain ⟨⟨hle, rfl⟩, -⟩ := oppositeParts_eq_ok_iff.1 hparts
  simp only [bind_eq_ok_iff, writeRow_eq_ok_iff] at h
  obtain ⟨mid, ⟨w, -, hmid⟩, w', -, hafter⟩ := h
  rw [Cells.getElem?_write hafter, if_neg (by omega), Cells.getElem?_write hmid, if_neg hi]

theorem getElem?_separateBins_upTo
    (h : (List.range t).foldlM (separateBins tw half) cells = .ok after) {k : Nat} (hk : t ≤ k)
    (hhalf : k + t ≤ half) : after[k]? = cells[k]? := by
  induction t generalizing after with
  | zero =>
      cases h
      rfl
  | succ t ih =>
      rw [foldlM_range_succ, bind_eq_ok_iff] at h
      obtain ⟨before, hbefore, hstep⟩ := h
      rw [getElem?_joinBins hstep (by omega) (by omega), ih hbefore (by omega) (by omega)]

/-- Both writes of the iteration go to one row. The first makes the result, and the second, of the
same value, leaves it. -/
def WritesAlike (join : Cplx α → Parts α → Cplx α) (tw : Twiddles α) (half : Nat)
    (source cells after : Array (Cplx α)) (i : Nat) : Prop :=
  half - i = i ∧ ∃ v, rowValues join tw half source i = .ok (v, v) ∧
    Cells.write cells i v = .ok after ∧ Cells.write after (half - i) v = .ok after

def separateOnce (kept : Side) (tw : Twiddles α) (count : Nat) (bins : Array (Cplx α)) :
    Checked (Array (Cplx α)) := do
  let bins ← (List.range (count / 4)).foldlM (separateBins tw (count / 2)) bins
  joinOnce kept Parts.separate tw (count / 2) bins bins (count / 4)

def reuniteOnce (kept : Side) (tw : Twiddles α) (count : Nat) (input bins : Array (Cplx α)) :
    Checked (Array (Cplx α)) := do
  let bins ← (List.range (count / 4)).foldlM (reuniteBins tw (count / 2) input) bins
  joinOnce kept Parts.reunite tw (count / 2) input bins (count / 4)

end Iterations

section Transforms

variable {α : Type} [Scalar α]

/-- The last iteration of the loop over the bins comes upon the quarter row as it was before the
loop, and writes it twice with one value. -/
def SeparatesAlike (kernel : Kernel) (table : Array (Cplx α)) (stored : Sense) (count : Nat)
    (samples : Array α) (out after : Array (Cplx α)) : Prop :=
  ∃ tw start bins, Twiddles.ofTable table count stored .forward = .ok tw ∧
    pairSpectrum kernel table stored count samples out = .ok start ∧
    (List.range (count / 4)).foldlM (separateBins tw (count / 2)) start = .ok bins ∧
    bins[count / 4]? = start[count / 4]? ∧
    separateBins tw (count / 2) bins (count / 4) = .ok after ∧
    WritesAlike Parts.separate tw (count / 2) bins bins after (count / 4)

def ReunitesAlike (table : Array (Cplx α)) (stored : Sense) (count : Nat)
    (input scratch after : Array (Cplx α)) : Prop :=
  ∃ tw rows, Twiddles.ofTable table count stored .inverse = .ok tw ∧
    (List.range (count / 4)).foldlM (reuniteBins tw (count / 2) input) scratch = .ok rows ∧
    reuniteBins tw (count / 2) input rows (count / 4) = .ok after ∧
    WritesAlike Parts.reunite tw (count / 2) input rows after (count / 4)

end Transforms

section Meeting

variable {R : Type} [CommRing R] {join : Cplx R → Parts R → Cplx R} {tw : Twiddles R}
  {half i : Nat} {source cells after : Array (Cplx R)}

/-- A row that is its own opposite has the same parts from either side. -/
theorem oppositeParts_meeting (hi : i + i = half) {j : Nat} {p : Parts R}
    (h : oppositeParts half source i = .ok (j, p)) : j = i ∧ p.opposite = p := by
  obtain ⟨⟨-, hj⟩, z, z', hz, hz', rfl⟩ := oppositeParts_eq_ok_iff.1 h
  obtain rfl : j = i := by omega
  cases hz.symm.trans hz'
  exact ⟨rfl, Parts.opposite_ofBins z z⟩

theorem joinOnce_eq_joinBins (kept : Side) (hi : i + i = half) :
    joinOnce kept join tw half source cells i = joinBins join tw half source cells i := by
  rw [joinOnce, joinBins]
  cases hparts : oppositeParts half source i with
  | error fault => rfl
  | ok parts =>
      obtain ⟨j, p⟩ := parts
      obtain ⟨rfl, hp⟩ := oppositeParts_meeting hi hparts
      simp only [ok_bind, hp, writeRow_again]
      cases kept <;> rfl

theorem writesAlike_of_joinBins (hi : i + i = half)
    (h : joinBins join tw half source cells i = .ok after) :
    WritesAlike join tw half source cells after i := by
  rw [joinBins, bind_eq_ok_iff] at h
  obtain ⟨⟨j, p⟩, hparts, h⟩ := h
  obtain ⟨rfl, hp⟩ := oppositeParts_meeting hi hparts
  simp only [hp, writeRow_again] at h
  obtain ⟨w, hw, hwrite⟩ := writeRow_eq_ok_iff.1 h
  have hv : rowValues join tw half source j = .ok (join w p, join w p) := by
    simp only [rowValues, hparts, hw, hp, ok_bind, pure_eq_ok]
  have hback : half - j = j := by omega
  have hagain := Cells.write_again cells j (join w p)
  rw [hwrite, ok_bind] at hagain
  exact ⟨hback, join w p, hv, hwrite, hback.symm ▸ hagain⟩

section Loops

variable {count : Nat}

theorem quarter_add_quarter (h : 4 ∣ count) : count / 4 + count / 4 = count / 2 := by omega

theorem separateOnce_eq (kept : Side) (h : 4 ∣ count) (bins : Array (Cplx R)) :
    separateOnce kept tw count bins = separateAll tw count bins := by
  rw [separateOnce, separateAll, foldlM_range_succ]
  refine bind_congr fun bins => ?_
  exact joinOnce_eq_joinBins kept (quarter_add_quarter h)

theorem reuniteOnce_eq (kept : Side) (h : 4 ∣ count) (input bins : Array (Cplx R)) :
    reuniteOnce kept tw count input bins = reuniteAll tw count input bins := by
  rw [reuniteOnce, reuniteAll, foldlM_range_succ]
  refine bind_congr fun bins => ?_
  exact joinOnce_eq_joinBins kept (quarter_add_quarter h)

variable {kernel : Kernel} {table input out : Array (Cplx R)} {stored : Sense}
  {samples : Array R} {ws ws' : Workspace R}

theorem spectrumBy_separateOnce (kept : Side) (h : 4 ∣ count) :
    spectrumBy (separateOnce kept) kernel table stored count samples out =
      spectrum kernel table stored count samples out := by
  simp only [spectrum, spectrumBy, separateOnce_eq kept h]

theorem synthesisBy_reuniteOnce (kept : Side) (h : 4 ∣ count) :
    synthesisBy (reuniteOnce kept) kernel table stored count input ws =
      synthesis kernel table stored count input ws := by
  simp only [synthesis, synthesisBy, reuniteOnce_eq kept h]

theorem separatesAlike_of_spectrum (hcount : 4 ∣ count)
    (h : spectrum kernel table stored count samples out = .ok after) :
    SeparatesAlike kernel table stored count samples out after := by
  rw [spectrum, spectrumBy, if_neg (by omega)] at h
  simp only [bind_eq_ok_iff] at h
  obtain ⟨start, hstart, tw, htw, hall⟩ := h
  rw [separateAll, foldlM_range_succ, bind_eq_ok_iff] at hall
  obtain ⟨bins, hbins, hlast⟩ := hall
  have hmeet := quarter_add_quarter hcount
  exact ⟨tw, start, bins, htw, hstart, hbins,
    getElem?_separateBins_upTo hbins (Nat.le_refl _) (Nat.le_of_eq hmeet), hlast,
    writesAlike_of_joinBins hmeet hlast⟩

theorem reunitesAlike_of_synthesis (hcount : 4 ∣ count)
    (h : synthesis kernel table stored count input ws = .ok ws') :
    ReunitesAlike table stored count input ws.scratch ws'.scratch := by
  rw [synthesis, synthesisBy, if_neg (by omega)] at h
  simp only [bind_eq_ok_iff, pure_eq_ok] at h
  obtain ⟨tw, htw, scratch, hall, output, -, hafter⟩ := h
  cases hafter
  rw [reuniteAll, foldlM_range_succ, bind_eq_ok_iff] at hall
  obtain ⟨rows, hrows, hlast⟩ := hall
  exact ⟨tw, rows, htw, hrows, hlast, writesAlike_of_joinBins (quarter_add_quarter hcount) hlast⟩

end Loops

end Meeting

end DyadicFourier
