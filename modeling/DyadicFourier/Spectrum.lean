import DyadicFourier.Samples
import DyadicFourier.Transform

namespace DyadicFourier

variable {α : Type} [Scalar α]

/-- The even and the odd part of two opposite bins, each doubled. -/
structure Parts (α : Type) where
  sum : Cplx α
  diff : Cplx α
  deriving DecidableEq, Repr

namespace Parts

def ofBins (z z' : Cplx α) : Parts α :=
  ⟨⟨z.re + z'.re, z.im - z'.im⟩, ⟨z.re - z'.re, z.im + z'.im⟩⟩

def opposite (p : Parts α) : Parts α :=
  ⟨⟨p.sum.re, -p.sum.im⟩, ⟨-p.diff.re, p.diff.im⟩⟩

def separate (w : Cplx α) (p : Parts α) : Cplx α := p.sum - w.rotateI * p.diff

def reunite (w : Cplx α) (p : Parts α) : Cplx α := p.sum + w.rotateI * p.diff

end Parts

/-- The spectrum of the first `count` samples taken as half as many points. It has the period
`count / 2`, so the bin that closes the period repeats the first. -/
def pairSpectrum (kernel : Kernel) (table : Array (Cplx α)) (stored : Sense) (count : Nat)
    (samples : Array α) (out : Array (Cplx α)) : Checked (Array (Cplx α)) := do
  let half := count / 2
  let tw ← Twiddles.ofTable table half stored .forward
  let points ← pairs (← Cells.slice samples 0 count)
  let bins ← transform kernel tw points 0 1 (← Cells.slice out 0 half)
  let out ← Cells.splice out 0 bins
  Cells.write out half (← Cells.read out 0)

def oppositeParts (half : Nat) (source : Array (Cplx α)) (i : Nat) :
    Checked (Nat × Parts α) := do
  let j ← Word.minus half i
  return (j, Parts.ofBins (← Cells.read source i) (← Cells.read source j))

def writeRow (join : Cplx α → Parts α → Cplx α) (tw : Twiddles α) (cells : Array (Cplx α))
    (i : Nat) (p : Parts α) : Checked (Array (Cplx α)) := do
  Cells.write cells i (join (← tw.get i) p)

/-- An iteration of either loop. The one that works in place reads the cells that it writes. -/
def joinBins (join : Cplx α → Parts α → Cplx α) (tw : Twiddles α) (half : Nat)
    (source cells : Array (Cplx α)) (i : Nat) : Checked (Array (Cplx α)) := do
  let (j, p) ← oppositeParts half source i
  let cells ← writeRow join tw cells i p
  writeRow join tw cells j p.opposite

def separateBins (tw : Twiddles α) (half : Nat) (bins : Array (Cplx α)) (i : Nat) :
    Checked (Array (Cplx α)) :=
  joinBins Parts.separate tw half bins bins i

/-- Opposite bins meet at a quarter of `count`, which is written twice. -/
def separateAll (tw : Twiddles α) (count : Nat) (bins : Array (Cplx α)) :
    Checked (Array (Cplx α)) :=
  (List.range (count / 4 + 1)).foldlM (separateBins tw (count / 2)) bins

/-- Twice the one-sided spectrum of `count` samples in the first `count / 2 + 1` bins of `out`, by
the loop that separates the bins of the pairs. -/
def spectrumBy (loop : Twiddles α → Nat → Array (Cplx α) → Checked (Array (Cplx α)))
    (kernel : Kernel) (table : Array (Cplx α)) (stored : Sense) (count : Nat) (samples : Array α)
    (out : Array (Cplx α)) : Checked (Array (Cplx α)) :=
  if count = 1 then do
    Cells.write out 0 ⟨Scalar.two * (← Cells.read samples 0), Scalar.zero⟩
  else do
    let out ← pairSpectrum kernel table stored count samples out
    loop (← Twiddles.ofTable table count stored .forward) count out

def spectrum (kernel : Kernel) (table : Array (Cplx α)) (stored : Sense) (count : Nat)
    (samples : Array α) (out : Array (Cplx α)) : Checked (Array (Cplx α)) :=
  spectrumBy separateAll kernel table stored count samples out

def reuniteBins (tw : Twiddles α) (half : Nat) (input bins : Array (Cplx α)) (i : Nat) :
    Checked (Array (Cplx α)) :=
  joinBins Parts.reunite tw half input bins i

def reuniteAll (tw : Twiddles α) (count : Nat) (input bins : Array (Cplx α)) :
    Checked (Array (Cplx α)) :=
  (List.range (count / 4 + 1)).foldlM (reuniteBins tw (count / 2) input) bins

def pairSamples (kernel : Kernel) (table : Array (Cplx α)) (stored : Sense) (count : Nat)
    (bins : Array (Cplx α)) (output : Array α) : Checked (Array α) := do
  let half := count / 2
  let tw ← Twiddles.ofTable table half stored .inverse
  let points ← pairs (← Cells.slice output 0 count)
  let points ← transform kernel tw (← Cells.slice bins 0 half) 0 1 points
  Cells.splice output 0 (flatten points)

structure Workspace (α : Type) where
  output : Array α
  scratch : Array (Cplx α)
  deriving DecidableEq, Repr

/-- The `count` samples, unscaled, of a one-sided spectrum of `count / 2 + 1` bins, by the loop that
reunites them in the scratch. A single sample needs no scratch. -/
def synthesisBy
    (loop : Twiddles α → Nat → Array (Cplx α) → Array (Cplx α) → Checked (Array (Cplx α)))
    (kernel : Kernel) (table : Array (Cplx α)) (stored : Sense) (count : Nat)
    (input : Array (Cplx α)) : Workspace α → Checked (Workspace α)
  | ⟨output, scratch⟩ =>
    if count = 1 then do
      return ⟨← Cells.write output 0 (← Cells.read input 0).re, scratch⟩
    else do
      let tw ← Twiddles.ofTable table count stored .inverse
      let scratch ← loop tw count input scratch
      return ⟨← pairSamples kernel table stored count scratch output, scratch⟩

def synthesis (kernel : Kernel) (table : Array (Cplx α)) (stored : Sense) (count : Nat)
    (input : Array (Cplx α)) (ws : Workspace α) : Checked (Workspace α) :=
  synthesisBy reuniteAll kernel table stored count input ws

end DyadicFourier
