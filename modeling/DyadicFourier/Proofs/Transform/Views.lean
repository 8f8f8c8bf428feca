import DyadicFourier.Proofs.Transform.Cascade

namespace DyadicFourier

variable {α : Type}

structure Divides (count : Nat) (table : Array (Cplx α)) : Prop where
  fits : Word.Fits table.size
  pos : 0 < table.size
  dvd : count ∣ table.size

namespace Divides

variable {count : Nat} {table : Array (Cplx α)}

theorem pos_count (h : Divides count table) : 0 < count :=
  Nat.pos_of_dvd_of_pos h.dvd h.pos

theorem mul_div (h : Divides count table) : count * (table.size / count) = table.size :=
  Nat.mul_div_cancel' h.dvd

theorem of_dvd {d : Nat} (h : Divides count table) (hd : d ∣ count) : Divides d table :=
  ⟨h.fits, h.pos, hd.trans h.dvd⟩

theorem index_lt (h : Divides count table) {k : Nat} (hk : k < count) :
    k * (table.size / count) < table.size := by
  have hdiv : 0 < table.size / count := Nat.div_pos (Nat.le_of_dvd h.pos h.dvd) h.pos_count
  calc k * (table.size / count) < count * (table.size / count) :=
        Nat.mul_lt_mul_of_pos_right hk hdiv
    _ = table.size := h.mul_div

end Divides

namespace Twiddles

variable {count : Nat} {table : Array (Cplx α)}

def view (table : Array (Cplx α)) (count : Nat) (stored sense : Sense) : Twiddles α :=
  ⟨table, table.size / count, stored != sense, sense⟩

theorem ofTable_eq_view (h : Divides count table) (stored sense : Sense) :
    ofTable table count stored sense = .ok (view table count stored sense) :=
  ofTable_eq_ok_iff.2 ⟨⟨Nat.pos_iff_ne_zero.1 h.pos_count, Nat.mod_eq_zero_of_dvd h.dvd⟩, rfl⟩

end Twiddles

variable [Scalar α]

def points (cells : Array (Cplx α)) (i : Nat) : Cplx α := cells[i]?.getD Cplx.zero

theorem getElem?_eq_points {cells : Array (Cplx α)} {i : Nat} (h : i < cells.size) :
    cells[i]? = some (points cells i) := by
  simp [points, h]

theorem points_tabulate {n i : Nat} {f : Nat → Cplx α} (hi : i < n) :
    points (Cells.tabulate n f) i = f i := by
  rw [points, Cells.getElem?_tabulate hi, Option.getD_some]

theorem points_fill {cells : Array (Cplx α)} {n i : Nat} {f : Nat → Cplx α} (hi : i < n)
    (hn : n ≤ cells.size) : points (Cells.fill cells n f) i = f i := by
  rw [points, Cells.getElem?_fill_of_lt hi hn, Option.getD_some]

theorem points_extract {cells : Array (Cplx α)} {n i : Nat} (hi : i < n) :
    points (cells.extract 0 n) i = points cells i := by
  rw [points, points, Cells.getElem?_extract_front hi]

namespace Twiddles

variable {count : Nat} {table : Array (Cplx α)}

def root (tw : Twiddles α) (k : Nat) : Cplx α :=
  if tw.conjugate then (points tw.table (k * tw.div)).conj else points tw.table (k * tw.div)

theorem get_view (h : Divides count table) (stored sense : Sense) {k : Nat} (hk : k < count) :
    (view table count stored sense).get k = .ok ((view table count stored sense).root k) := by
  have hlt := h.index_lt hk
  rw [get_of_lt (h.fits.mono (Nat.le_of_lt hlt)) hlt]
  simp [root, points, view, hlt]

end Twiddles

structure Twiddles.InRange (tw : Twiddles α) (stride n : Nat) : Prop where
  fits_rows : Word.Fits (4 * n)
  fits_table : Word.Fits tw.table.size
  fits_step : ∀ i < n, Word.Fits (3 * i * stride)
  index_lt : ∀ i < n, 3 * i * stride * tw.div < tw.table.size

theorem Twiddles.InRange.serves {tw : Twiddles α} {stride n : Nat} (h : tw.InRange stride n) :
    tw.Serves tw.root stride n := by
  have hle {i c : Nat} (hc : c ≤ 3) : c * i * stride ≤ 3 * i * stride :=
    Nat.mul_le_mul_right stride (Nat.mul_le_mul_right i hc)
  constructor
  · exact h.fits_rows
  · intro i hi c _ hc
    exact (h.fits_step i hi).mono (hle hc)
  · intro i hi c _ hc
    have hlt : c * i * stride * tw.div < tw.table.size :=
      Nat.lt_of_le_of_lt (Nat.mul_le_mul_right tw.div (hle hc)) (h.index_lt i hi)
    rw [Twiddles.get_of_lt (h.fits_table.mono (Nat.le_of_lt hlt)) hlt]
    simp [Twiddles.root, points, hlt]

theorem Kernel.exists_combine_eq {tw : Twiddles α} {stride n : Nat} (h : tw.InRange stride n)
    {cells : Array (Cplx α)} (hsize : cells.size = 4 * n) :
    ∃ out, ∀ kernel : Kernel, kernel.combine tw stride cells = .ok out := by
  have hrows : cells = (Quarters.ofRows n fun i => ⟨points cells i, points cells (n + i),
      points cells (2 * n + i), points cells (3 * n + i)⟩).toArray := by
    have htab : cells = Cells.tabulate (4 * n) (points cells) :=
      Cells.eq_tabulate hsize fun i hi => by simp [points, hi]
    rw [← Quarters.ofArray_tabulate, Quarters.toArray_ofArray, ← htab]
  rw [hrows]
  exact ⟨_, fun kernel => kernel.combine_ofRows h.serves _⟩

theorem feeds_view {m : Nat} {table input : Array (Cplx α)} {x : Nat → Cplx α}
    (h : Divides (2 ^ m) table) (stored sense : Sense)
    (hx : ∀ t < 2 ^ m, input[t]? = some (x t)) :
    Feeds (.view table (2 ^ m) stored sense) (Twiddles.view table (2 ^ m) stored sense).root
      input m 0 1 x := by
  constructor
  · omega
  · rw [Nat.one_mul]
    exact h.fits.mono (Nat.le_of_dvd h.pos h.dvd)
  · rw [Nat.one_mul]
    exact fun k hk => Twiddles.get_view h stored sense hk
  · intro t ht
    rw [Nat.zero_add, Nat.mul_one]
    exact hx t ht

theorem transform_view (kernel : Kernel) {m : Nat} {table input out : Array (Cplx α)}
    {x : Nat → Cplx α} (h : Divides (2 ^ m) table) (stored sense : Sense)
    (hx : ∀ t < 2 ^ m, input[t]? = some (x t)) (hout : out.size = 2 ^ m) :
    transform kernel (.view table (2 ^ m) stored sense) input 0 1 out =
      .ok (Cells.tabulate (2 ^ m)
        (cascade sense (Twiddles.view table (2 ^ m) stored sense).root m 1 x)) :=
  transform_eq_cascade kernel (feeds_view h stored sense hx) hout

def Sense.orient : Sense → Cplx α → Cplx α
  | .forward, w => w
  | .inverse, w => w.conj

theorem Direction.orient_stored {d : Direction} {sense : Sense} (h : d.supports sense = true)
    (w : Cplx α) : (if (d.tableSense != sense) = true then (d.tableSense.orient w).conj
      else d.tableSense.orient w) = sense.orient w := by
  cases d <;> cases sense <;> simp_all [supports, tableSense, Sense.orient]

variable [UnitRoots α]

theorem unitTable_eq_tabulate (n : Nat) (sense : Sense) : (unitTable n sense : Array (Cplx α)) =
    Cells.tabulate n fun k => sense.orient (UnitRoots.root k n) := by
  cases sense <;> rfl

theorem unitTable_eq_map (n : Nat) (stored : Sense) :
    (unitTable n stored : Array (Cplx α)) = (unitTable n .forward).map stored.orient := by
  rw [unitTable_eq_tabulate, unitTable_eq_tabulate, Cells.tabulate, Cells.tabulate,
    Array.map_ofFn]
  rfl

theorem Twiddles.root_unitTable {count n k : Nat} {stored : Sense}
    (h : Divides count (unitTable n stored : Array (Cplx α))) (sense : Sense) (hk : k < count) :
    ((view (unitTable n stored) count stored sense).root k : Cplx α) =
      if (stored != sense) = true then (stored.orient (UnitRoots.root (k * (n / count)) n)).conj
      else stored.orient (UnitRoots.root (k * (n / count)) n) := by
  have hlt := h.index_lt hk
  rw [size_unitTable] at hlt
  have hget : points (unitTable n stored) (k * (n / count)) =
      stored.orient (UnitRoots.root (k * (n / count)) n : Cplx α) := by
    rw [points, unitTable_eq_tabulate, Cells.getElem?_tabulate hlt, Option.getD_some]
  rw [root, view, size_unitTable, hget]

end DyadicFourier
