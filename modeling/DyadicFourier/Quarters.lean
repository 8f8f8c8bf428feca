import DyadicFourier.Cells
import DyadicFourier.Cplx

namespace DyadicFourier

variable {α : Type}

structure Row (α : Type) where
  x0 : Cplx α
  x1 : Cplx α
  x2 : Cplx α
  x3 : Cplx α
  deriving DecidableEq, Repr

structure Quarters (α : Type) where
  q0 : Array (Cplx α)
  q1 : Array (Cplx α)
  q2 : Array (Cplx α)
  q3 : Array (Cplx α)
  deriving DecidableEq, Repr

namespace Quarters

def ofArray (points : Array (Cplx α)) : Quarters α :=
  let n := points.size / 4
  ⟨points.extract 0 n, points.extract n (2 * n), points.extract (2 * n) (3 * n),
    points.extract (3 * n) points.size⟩

def toArray (q : Quarters α) : Array (Cplx α) := q.q0 ++ q.q1 ++ q.q2 ++ q.q3

def row (q : Quarters α) (i : Nat) : Checked (Row α) := do
  return ⟨← Cells.read q.q0 i, ← Cells.read q.q1 i, ← Cells.read q.q2 i, ← Cells.read q.q3 i⟩

def setRow : Quarters α → Nat → Row α → Checked (Quarters α)
  | ⟨q0, q1, q2, q3⟩, i, x => do
    let q0 ← Cells.write q0 i x.x0
    let q1 ← Cells.write q1 i x.x1
    let q2 ← Cells.write q2 i x.x2
    let q3 ← Cells.write q3 i x.x3
    return ⟨q0, q1, q2, q3⟩

theorem toArray_ofArray (points : Array (Cplx α)) : (ofArray points).toArray = points := by
  have h1 : max (points.size / 4) (2 * (points.size / 4)) = 2 * (points.size / 4) := by omega
  have h2 : max (3 * (points.size / 4)) points.size = points.size := by omega
  simp [ofArray, toArray, h1, h2]

theorem size_ofArray {points : Array (Cplx α)} {n : Nat} (h : points.size = 4 * n) :
    (ofArray points).q0.size = n ∧ (ofArray points).q1.size = n ∧
      (ofArray points).q2.size = n ∧ (ofArray points).q3.size = n := by
  simp [ofArray, h]
  omega

theorem size_ofArray_lt {points : Array (Cplx α)} (h0 : points.size ≠ 0)
    (h4 : points.size % 4 = 0) :
    (ofArray points).q0.size < points.size ∧ (ofArray points).q1.size < points.size ∧
      (ofArray points).q2.size < points.size ∧ (ofArray points).q3.size < points.size := by
  obtain ⟨hq0, hq1, hq2, hq3⟩ := @size_ofArray α points (points.size / 4) (by omega)
  omega

end Quarters

end DyadicFourier
