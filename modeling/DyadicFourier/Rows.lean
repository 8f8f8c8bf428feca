import DyadicFourier.Butterfly
import DyadicFourier.Twiddle

namespace DyadicFourier.Rows

variable {α : Type} [Scalar α]

def combineRow (tw : Twiddles α) (stride : Nat) (q : Quarters α) (i : Nat) :
    Checked (Quarters α) := do
  let f ← q.row i
  let w1 ← tw.get (← Word.times i stride)
  let w2 ← tw.get (← Word.times (← Word.times 2 i) stride)
  let w3 ← tw.get (← Word.times (← Word.times 3 i) stride)
  q.setRow i (butterfly tw.sense ⟨f.x0, f.x1 * w1, f.x2 * w2, f.x3 * w3⟩)

def combineFrom (tw : Twiddles α) (stride start : Nat) (q : Quarters α) : Checked (Quarters α) :=
  (List.range' start (q.q0.size - start)).foldlM (combineRow tw stride) q

def combine (tw : Twiddles α) (stride : Nat) (points : Array (Cplx α)) :
    Checked (Array (Cplx α)) := do
  return (← combineFrom tw stride 0 (Quarters.ofArray points)).toArray

end DyadicFourier.Rows
