import DyadicFourier.Rows
import DyadicFourier.Proofs.Cells.Fill
import Mathlib.Tactic.IntervalCases

namespace DyadicFourier

variable {α : Type}

namespace Row

def get (f : Row α) : Nat → Cplx α
  | 0 => f.x0
  | 1 => f.x1
  | 2 => f.x2
  | _ => f.x3

def ofFn (f : Nat → Cplx α) : Row α := ⟨f 0, f 1, f 2, f 3⟩

theorem get_ofFn {f : Nat → Cplx α} {q : Nat} (h : q < 4) : (ofFn f).get q = f q := by
  interval_cases q <;> rfl

end Row

namespace Quarters

def ofRows (n : Nat) (f : Nat → Row α) : Quarters α :=
  ⟨Cells.tabulate n fun i => (f i).x0, Cells.tabulate n fun i => (f i).x1,
    Cells.tabulate n fun i => (f i).x2, Cells.tabulate n fun i => (f i).x3⟩

@[simp] theorem size_q0_ofRows (n : Nat) (f : Nat → Row α) : (ofRows n f).q0.size = n := by
  simp [ofRows]

theorem ofRows_congr {n : Nat} {f g : Nat → Row α} (h : ∀ i < n, f i = g i) :
    ofRows n f = ofRows n g := by
  simp only [ofRows, Quarters.mk.injEq]
  refine ⟨?_, ?_, ?_, ?_⟩ <;> exact Cells.tabulate_congr fun i hi => by rw [h i hi]

theorem row_ofRows {n : Nat} {f : Nat → Row α} {i : Nat} (h : i < n) :
    (ofRows n f).row i = .ok (f i) := by
  simp [row, ofRows, Cells.read_tabulate h]

theorem setRow_ofRows {n : Nat} {f : Nat → Row α} {i : Nat} {x : Row α} (h : i < n) :
    (ofRows n f).setRow i x = .ok (ofRows n (Function.update f i x)) := by
  have hu (p : Row α → Cplx α) : Function.update (fun j => p (f j)) i (p x) =
      fun j => p (Function.update f i x j) := by
    funext j
    by_cases hj : j = i
    · subst hj
      simp
    · simp [Function.update_of_ne hj]
  simp [setRow, ofRows, Cells.write_tabulate h, hu]

theorem ofArray_tabulate (n : Nat) (g : Nat → Cplx α) :
    ofArray (Cells.tabulate (4 * n) g) =
      ofRows n fun i => ⟨g i, g (n + i), g (2 * n + i), g (3 * n + i)⟩ := by
  have hn : 4 * n / 4 = n := by omega
  simp only [ofArray, ofRows, Cells.size_tabulate, hn, Quarters.mk.injEq]
  refine ⟨?_, ?_, ?_, ?_⟩
  all_goals
    apply Cells.eq_tabulate
    · simp
      omega
    · intro i hi
      simp

theorem ofRows_eq_ofArray (n : Nat) (f : Nat → Row α) :
    ofRows n f = ofArray (Cells.tabulate (4 * n) fun k => (f (k % n)).get (k / n)) := by
  rw [ofArray_tabulate]
  apply ofRows_congr
  intro i hi
  have hn : 0 < n := by omega
  have hd : i / n = 0 := Nat.div_eq_of_lt hi
  have hd2 : (2 * n + i) / n = 2 := by rw [Nat.mul_comm, Nat.mul_add_div hn, hd]
  have hd3 : (3 * n + i) / n = 3 := by rw [Nat.mul_comm, Nat.mul_add_div hn, hd]
  simp [Nat.mod_eq_of_lt hi, hd, hd2, hd3, Nat.add_div_left i hn, Row.get]

theorem toArray_ofRows (n : Nat) (f : Nat → Row α) :
    (ofRows n f).toArray = Cells.tabulate (4 * n) fun k => (f (k % n)).get (k / n) := by
  rw [ofRows_eq_ofArray, toArray_ofArray]

theorem ofArray_toArray_ofRows (n : Nat) (f : Nat → Row α) :
    ofArray (ofRows n f).toArray = ofRows n f := by
  rw [toArray_ofRows, ← ofRows_eq_ofArray]

end Quarters

end DyadicFourier
