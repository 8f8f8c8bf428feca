import DyadicFourier.Kernel

namespace DyadicFourier

variable {α : Type} [Scalar α]

/-- Fills `out` with the transform of as many points of `input`, taken from `offset` on at distance
`stride`. A length that is no power of four ends in transforms of two points. -/
def transform (kernel : Kernel) (tw : Twiddles α) (input : Array (Cplx α)) (offset stride : Nat)
    (out : Array (Cplx α)) : Checked (Array (Cplx α)) :=
  if out.size = 1 then do
    Cells.write out 0 (← Cells.read input offset)
  else if out.size = 2 then do
    let a ← Cells.read input offset
    let b ← Cells.read input (← Word.plus offset stride)
    let out ← Cells.write out 0 (a + b)
    Cells.write out 1 (a - b)
  else if out.size = 4 then do
    let x : Row α := ⟨← Cells.read input offset,
      ← Cells.read input (← Word.plus offset stride),
      ← Cells.read input (← Word.plus offset (← Word.times 2 stride)),
      ← Cells.read input (← Word.plus offset (← Word.times 3 stride))⟩
    let y := butterfly tw.sense x
    Cells.splice out 0 #[y.x0, y.x1, y.x2, y.x3]
  else if h : out.size ≠ 0 ∧ out.size % 4 = 0 then do
    let q := Quarters.ofArray out
    have := Quarters.size_ofArray_lt h.1 h.2
    let stride4 ← Word.times stride 4
    let q0 ← transform kernel tw input offset stride4 q.q0
    let q1 ← transform kernel tw input (← Word.plus offset stride) stride4 q.q1
    let q2 ← transform kernel tw input (← Word.plus offset (← Word.times 2 stride)) stride4 q.q2
    let q3 ← transform kernel tw input (← Word.plus offset (← Word.times 3 stride)) stride4 q.q3
    kernel.combine tw stride (Quarters.toArray ⟨q0, q1, q2, q3⟩)
  else .error (.indivisible out.size 4)
termination_by out.size
decreasing_by all_goals omega

end DyadicFourier
