import DyadicFourier.Proofs.Spectrum.Mirrored
import DyadicFourier.Proofs.Transform.Views

namespace DyadicFourier

variable {α : Type}

def paired (x : Nat → α) (k : Nat) : Cplx α := ⟨x (2 * k), x (2 * k + 1)⟩

def interleaved (z : Nat → Cplx α) (n : Nat) : α :=
  if n % 2 = 0 then (z (n / 2)).re else (z (n / 2)).im

theorem interleaved_congr {z z' : Nat → Cplx α} {n i : Nat} (h : ∀ k < n, z k = z' k)
    (hi : i < 2 * n) : interleaved z i = interleaved z' i := by
  rw [interleaved, interleaved, h (i / 2) (by omega)]

theorem pairs_tabulate (n : Nat) (x : Nat → α) :
    pairs (Cells.tabulate (2 * n) x) = .ok (Cells.tabulate n (paired x)) := by
  rw [pairs, if_pos (by simp)]
  congr 1
  apply Cells.eq_tabulate (by simp)
  intro i hi
  simp [paired]

theorem flatten_push (points : Array (Cplx α)) (z : Cplx α) :
    flatten (points.push z) = ((flatten points).push z.re).push z.im := by
  simp only [flatten, Array.flatMap_push]
  rfl

theorem flatten_tabulate (n : Nat) (z : Nat → Cplx α) :
    flatten (Cells.tabulate n z) = Cells.tabulate (2 * n) (interleaved z) := by
  induction n with
  | zero => rfl
  | succ n ih =>
      have heven : interleaved z (2 * n) = (z n).re := by
        have hmod : 2 * n % 2 = 0 := by omega
        have hdiv : 2 * n / 2 = n := by omega
        rw [interleaved, if_pos hmod, hdiv]
      have hodd : interleaved z (2 * n + 1) = (z n).im := by
        have hmod : ¬(2 * n + 1) % 2 = 0 := by omega
        have hdiv : (2 * n + 1) / 2 = n := by omega
        rw [interleaved, if_neg hmod, hdiv]
      rw [Cells.tabulate_succ, flatten_push, ih, Nat.mul_succ, Cells.tabulate_succ,
        Cells.tabulate_succ, heven, hodd]

variable [Scalar α] {table : Array (Cplx α)} {j : Nat}

theorem fill_interleaved_points (cells : Array α) {room : Array (Cplx α)} {n : Nat}
    {f : Nat → Cplx α} (hroom : n ≤ room.size) :
    Cells.fill cells (2 * n) (interleaved (points (Cells.fill room n f))) =
      Cells.fill cells (2 * n) (interleaved f) :=
  Cells.fill_congr fun _ hi => interleaved_congr (fun _ hk => points_fill hk hroom) hi

def numbers (samples : Array α) (i : Nat) : α := samples[i]?.getD Scalar.zero

theorem numbers_extract {samples : Array α} {n i : Nat} (hi : i < n) :
    numbers (samples.extract 0 n) i = numbers samples i := by
  rw [numbers, numbers, Cells.getElem?_extract_front hi]

def pairBins (table : Array (Cplx α)) (stored : Sense) (j : Nat) (x : Nat → α) : Nat → Cplx α :=
  let z := cascade .forward (Twiddles.view table (2 ^ j) stored .forward).root j 1 (paired x)
  Function.update z (2 ^ j) (z 0)

theorem two_pow_succ_div_two (j : Nat) : 2 ^ (j + 1) / 2 = 2 ^ j := by
  rw [Nat.pow_succ]
  omega

theorem pairSpectrum_eq (kernel : Kernel) (h : Divides (2 ^ (j + 1)) table) (stored : Sense)
    {samples : Array α} (hin : 2 ^ (j + 1) ≤ samples.size) {out : Array (Cplx α)}
    (hout : 2 ^ j + 1 ≤ out.size) :
    pairSpectrum kernel table stored (2 ^ (j + 1)) samples out =
      .ok (Cells.fill out (2 ^ j + 1) (pairBins table stored j (numbers samples))) := by
  have hd : Divides (2 ^ j) table := h.of_dvd (Nat.pow_dvd_pow 2 (Nat.le_succ j))
  have hcount : 2 ^ (j + 1) = 2 * 2 ^ j := Nat.pow_succ'
  have hin' : Cells.slice samples 0 (2 ^ (j + 1)) =
      .ok (Cells.tabulate (2 * 2 ^ j) (numbers samples)) := by
    rw [Cells.slice_front Scalar.zero hin, hcount]
    rfl
  have hslice : Cells.slice out 0 (2 ^ j) = .ok (Cells.tabulate (2 ^ j) (points out)) :=
    Cells.slice_front Cplx.zero (by omega)
  have ht := transform_view kernel hd stored .forward
    (fun t ht => Cells.getElem?_tabulate (f := paired (numbers samples)) ht)
    (Cells.size_tabulate (2 ^ j) (points out))
  have hpos := Nat.two_pow_pos j
  simp only [pairSpectrum, two_pow_succ_div_two, Twiddles.ofTable_eq_view hd, hin',
    pairs_tabulate, hslice, ht, ok_bind,
    Cells.splice_tabulate (by omega : 2 ^ j ≤ out.size),
    Cells.read_fill hpos (by omega : 2 ^ j ≤ out.size)]
  exact Cells.write_fill_end hout

theorem spectrum_succ (kernel : Kernel) (h : Divides (2 ^ (j + 1)) table) (stored : Sense)
    {samples : Array α} (hin : 2 ^ (j + 1) ≤ samples.size) {out : Array (Cplx α)}
    (hout : 2 ^ j + 1 ≤ out.size) :
    spectrum kernel table stored (2 ^ (j + 1)) samples out =
      .ok (Cells.fill out (2 ^ j + 1)
        (crossed Parts.separate (Twiddles.view table (2 ^ (j + 1)) stored .forward).root (2 ^ j)
          (pairBins table stored j (numbers samples)))) := by
  have hpos := Nat.two_pow_pos j
  have hcount : 2 ^ (j + 1) = 2 * 2 ^ j := Nat.pow_succ'
  have hw (k : Nat) (hk : k ≤ 2 ^ (j + 1) / 2) := Twiddles.get_view h stored .forward
    (show k < 2 ^ (j + 1) by omega)
  have hsep := separateAll_eq hw out (by rw [two_pow_succ_div_two]; exact hout)
    (pairBins table stored j (numbers samples))
  rw [two_pow_succ_div_two] at hsep
  rw [spectrum, spectrumBy, if_neg (by omega), pairSpectrum_eq kernel h stored hin hout,
    Twiddles.ofTable_eq_view h]
  exact hsep

def reunitedBins (table : Array (Cplx α)) (stored : Sense) (j : Nat) (x : Nat → Cplx α) :
    Nat → Cplx α :=
  crossed Parts.reunite (Twiddles.view table (2 ^ (j + 1)) stored .inverse).root (2 ^ j) x

def pairSums (table : Array (Cplx α)) (stored : Sense) (j : Nat) (x : Nat → Cplx α) :
    Nat → Cplx α :=
  cascade .inverse (Twiddles.view table (2 ^ j) stored .inverse).root j 1
    (reunitedBins table stored j x)

theorem pairSamples_fill (kernel : Kernel) (h : Divides (2 ^ (j + 1)) table) (stored : Sense)
    {bins : Array (Cplx α)} {s : Nat → Cplx α} (hbins : 2 ^ j + 1 ≤ bins.size)
    {output : Array α} (hout : 2 ^ (j + 1) ≤ output.size) :
    pairSamples kernel table stored (2 ^ (j + 1)) (Cells.fill bins (2 ^ j + 1) s) output =
      .ok (Cells.fill output (2 ^ (j + 1)) (interleaved
        (cascade .inverse (Twiddles.view table (2 ^ j) stored .inverse).root j 1 s))) := by
  have hd : Divides (2 ^ j) table := h.of_dvd (Nat.pow_dvd_pow 2 (Nat.le_succ j))
  have hcount : 2 ^ (j + 1) = 2 * 2 ^ j := Nat.pow_succ'
  have hslice : Cells.slice output 0 (2 ^ (j + 1)) =
      .ok (Cells.tabulate (2 * 2 ^ j) (numbers output)) := by
    rw [Cells.slice_front Scalar.zero hout, hcount]
    rfl
  have ht := transform_view kernel hd stored .inverse
    (fun t ht => Cells.getElem?_tabulate (f := s) ht)
    (Cells.size_tabulate (2 ^ j) (paired (numbers output)))
  simp only [pairSamples, two_pow_succ_div_two, Twiddles.ofTable_eq_view hd, hslice,
    pairs_tabulate, Cells.slice_fill (Nat.le_succ (2 ^ j)) hbins, ht, ok_bind,
    flatten_tabulate]
  rw [← hcount]
  exact Cells.splice_tabulate hout

theorem synthesis_succ (kernel : Kernel) (h : Divides (2 ^ (j + 1)) table) (stored : Sense)
    {input : Array (Cplx α)} (hin : 2 ^ j + 1 ≤ input.size) {ws : Workspace α}
    (hout : 2 ^ (j + 1) ≤ ws.output.size) (hscratch : 2 ^ j + 1 ≤ ws.scratch.size) :
    synthesis kernel table stored (2 ^ (j + 1)) input ws =
      .ok ⟨Cells.fill ws.output (2 ^ (j + 1))
          (interleaved (pairSums table stored j (points input))),
        Cells.fill ws.scratch (2 ^ j + 1) (reunitedBins table stored j (points input))⟩ := by
  obtain ⟨output, scratch⟩ := ws
  have hpos := Nat.two_pow_pos j
  have hcount : 2 ^ (j + 1) = 2 * 2 ^ j := Nat.pow_succ'
  have hw (k : Nat) (hk : k ≤ 2 ^ (j + 1) / 2) := Twiddles.get_view h stored .inverse
    (show k < 2 ^ (j + 1) by omega)
  have hx (k : Nat) (hk : k ≤ 2 ^ (j + 1) / 2) : input[k]? = some (points input k) :=
    getElem?_eq_points (by omega)
  have hscratch' : 2 ^ (j + 1) / 2 + 1 ≤ scratch.size := by
    rw [two_pow_succ_div_two]
    exact hscratch
  have hreunite := reuniteAll_eq hw hx hscratch'
  rw [two_pow_succ_div_two] at hreunite
  rw [synthesis, synthesisBy, if_neg (by omega), Twiddles.ofTable_eq_view h]
  simp only [ok_bind, hreunite, pairSamples_fill kernel h stored hscratch hout]
  rfl

def realBins (table : Array (Cplx α)) (stored : Sense) : Nat → (Nat → α) → Nat → Cplx α
  | 0, x => fun _ => ⟨Scalar.two * x 0, Scalar.zero⟩
  | j + 1, x => crossed Parts.separate (Twiddles.view table (2 ^ (j + 1)) stored .forward).root
      (2 ^ j) (pairBins table stored j x)

def realSums (table : Array (Cplx α)) (stored : Sense) : Nat → (Nat → Cplx α) → Nat → α
  | 0, x => fun _ => (x 0).re
  | j + 1, x => interleaved (pairSums table stored j x)

def workBins (table : Array (Cplx α)) (stored : Sense) :
    Nat → (Nat → Cplx α) → Array (Cplx α) → Array (Cplx α)
  | 0, _, scratch => scratch
  | j + 1, x, scratch => Cells.fill scratch (2 ^ j + 1) (reunitedBins table stored j x)

@[simp] theorem size_workBins (stored : Sense) (x : Nat → Cplx α) (scratch : Array (Cplx α)) :
    (workBins table stored j x scratch).size = scratch.size := by
  cases j <;> simp [workBins]

theorem spectrum_eq (kernel : Kernel) (h : Divides (2 ^ j) table) (stored : Sense)
    {samples : Array α} (hin : 2 ^ j ≤ samples.size) {out : Array (Cplx α)}
    (hout : 2 ^ j / 2 + 1 ≤ out.size) :
    spectrum kernel table stored (2 ^ j) samples out =
      .ok (Cells.fill out (2 ^ j / 2 + 1) (realBins table stored j (numbers samples))) := by
  cases j with
  | zero =>
      have hr : Cells.read samples 0 = .ok (numbers samples 0) := by
        rw [Cells.read_of_lt hin]
        simp [numbers, Nat.lt_of_lt_of_le Nat.zero_lt_one hin]
      rw [spectrum, spectrumBy, if_pos (Nat.pow_zero 2), hr, ok_bind, Cells.write_zero hout]
      rfl
  | succ j =>
      rw [two_pow_succ_div_two] at hout ⊢
      exact spectrum_succ kernel h stored hin hout

theorem synthesis_eq (kernel : Kernel) (h : Divides (2 ^ j) table) (stored : Sense)
    {input : Array (Cplx α)} (hin : 2 ^ j / 2 + 1 ≤ input.size) {ws : Workspace α}
    (hout : 2 ^ j ≤ ws.output.size) (hscratch : 2 ^ j / 2 + 1 ≤ ws.scratch.size) :
    synthesis kernel table stored (2 ^ j) input ws =
      .ok ⟨Cells.fill ws.output (2 ^ j) (realSums table stored j (points input)),
        workBins table stored j (points input) ws.scratch⟩ := by
  cases j with
  | zero =>
      obtain ⟨output, scratch⟩ := ws
      have hr : Cells.read input 0 = .ok (points input 0) :=
        Cells.read_eq_ok_iff.2 (getElem?_eq_points hin)
      rw [synthesis, synthesisBy, if_pos (Nat.pow_zero 2), hr, ok_bind, Cells.write_zero hout]
      rfl
  | succ j =>
      rw [two_pow_succ_div_two] at hin hscratch
      exact synthesis_succ kernel h stored hin hout hscratch

end DyadicFourier
