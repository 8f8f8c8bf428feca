import DyadicFourier.Quad
import DyadicFourier.Rows

namespace DyadicFourier.Lanes

variable {α : Type} [Scalar α]

def gather (tw : Twiddles α) (i step : Nat) : Checked (Cplx (Quad α)) := do
  let w0 ← tw.get (← Word.times i step)
  let w1 ← tw.get (← Word.times (← Word.plus i 1) step)
  let w2 ← tw.get (← Word.times (← Word.plus i 2) step)
  let w3 ← tw.get (← Word.times (← Word.plus i 3) step)
  return ⟨⟨w0.re, w1.re, w2.re, w3.re⟩, ⟨w0.im, w1.im, w2.im, w3.im⟩⟩

def combineFour (tw : Twiddles α) (stride : Nat) : Quarters α → Nat → Checked (Quarters α)
  | ⟨q0, q1, q2, q3⟩, i => do
    let f0 ← Cells.load q0 i
    let f1 ← Cells.load q1 i
    let f2 ← Cells.load q2 i
    let f3 ← Cells.load q3 i
    let w1 ← gather tw i stride
    let w2 ← gather tw i (← Word.times 2 stride)
    let w3 ← gather tw i (← Word.times 3 stride)
    let g1 := f1 * w1
    let g2 := f2 * w2
    let g3 := f3 * w3
    let sum02 := f0 + g2
    let diff02 := f0 - g2
    let sum13 := g1 + g3
    let diff13 := g1 - g3
    let q0 ← Cells.store q0 i (sum02 + sum13)
    let q2 ← Cells.store q2 i (sum02 - sum13)
    let up := diff02.addI diff13
    let down := diff02.subI diff13
    match tw.sense with
    | .inverse =>
      let q1 ← Cells.store q1 i up
      let q3 ← Cells.store q3 i down
      return ⟨q0, q1, q2, q3⟩
    | .forward =>
      let q1 ← Cells.store q1 i down
      let q3 ← Cells.store q3 i up
      return ⟨q0, q1, q2, q3⟩

def combine (tw : Twiddles α) (stride : Nat) (points : Array (Cplx α)) :
    Checked (Array (Cplx α)) := do
  let n := points.size / 4
  let lanes := n - n % 4
  let q ← (List.range' 0 (lanes / 4) 4).foldlM (combineFour tw stride) (Quarters.ofArray points)
  return (← Rows.combineFrom tw stride lanes q).toArray

end DyadicFourier.Lanes
