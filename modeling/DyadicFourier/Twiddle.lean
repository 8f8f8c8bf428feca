import DyadicFourier.Cells
import DyadicFourier.Cplx
import DyadicFourier.Sense
import DyadicFourier.Word

namespace DyadicFourier

/-- Supplies `root k n`, which stands for `exp(-2πik/n)`. -/
class UnitRoots (α : Type) where
  root : Nat → Nat → Cplx α

/-- The angle is taken in double precision, and its cosine and sine are then rounded once. -/
instance : UnitRoots Float32 where
  root k n :=
    let angle : Float := -2.0 * 3.141592653589793 * Float.ofNat k / Float.ofNat n
    ⟨angle.cos.toFloat32, angle.sin.toFloat32⟩

variable {α : Type}

def unitTable [Scalar α] [UnitRoots α] (n : Nat) (sense : Sense) : Array (Cplx α) :=
  Array.ofFn fun k : Fin n =>
    let w : Cplx α := UnitRoots.root k n
    match sense with
    | .forward => w
    | .inverse => w.conj

@[simp] theorem size_unitTable [Scalar α] [UnitRoots α] (n : Nat) (sense : Sense) :
    (unitTable n sense : Array (Cplx α)).size = n := by
  simp [unitTable]

/-- A table of roots as a transform of a certain length reads it: every `div`-th entry, conjugated
when the table was stored in the other sense. -/
structure Twiddles (α : Type) where
  table : Array (Cplx α)
  div : Nat
  conjugate : Bool
  sense : Sense

namespace Twiddles

def ofTable (table : Array (Cplx α)) (count : Nat) (stored sense : Sense) :
    Checked (Twiddles α) :=
  if count ≠ 0 ∧ table.size % count = 0 then
    .ok ⟨table, table.size / count, stored != sense, sense⟩
  else .error (.indivisible table.size count)

def get [Scalar α] (tw : Twiddles α) (k : Nat) : Checked (Cplx α) := do
  let w ← Cells.read tw.table (← Word.times k tw.div)
  return if tw.conjugate then w.conj else w

theorem ofTable_eq_ok_iff {table : Array (Cplx α)} {count : Nat} {stored sense : Sense}
    {tw : Twiddles α} : ofTable table count stored sense = .ok tw ↔
      (count ≠ 0 ∧ table.size % count = 0) ∧
        tw = ⟨table, table.size / count, stored != sense, sense⟩ := by
  unfold ofTable
  split <;> simp_all [eq_comm]

theorem get_of_lt [Scalar α] {tw : Twiddles α} {k : Nat} (hw : Word.Fits (k * tw.div))
    (hk : k * tw.div < tw.table.size) :
    tw.get k = .ok (if tw.conjugate then tw.table[k * tw.div].conj else tw.table[k * tw.div]) := by
  simp only [get, Word.times_of_fits hw]
  change (do let w ← Cells.read tw.table (k * tw.div); _) = _
  rw [Cells.read_of_lt hk]
  rfl

end Twiddles

end DyadicFourier
