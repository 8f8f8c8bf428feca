import DyadicFourier.Cells
import Mathlib.Logic.Function.Basic

namespace DyadicFourier.Cells

variable {β : Type}

def tabulate (n : Nat) (f : Nat → β) : Array β := Array.ofFn fun i : Fin n => f i

def fill (cells : Array β) (n : Nat) (f : Nat → β) : Array β :=
  cells.mapIdx fun i x => if i < n then f i else x

@[simp] theorem size_tabulate (n : Nat) (f : Nat → β) : (tabulate n f).size = n := by
  simp [tabulate]

@[simp] theorem getElem_tabulate {n : Nat} {f : Nat → β} {i : Nat}
    (h : i < (tabulate n f).size) : (tabulate n f)[i] = f i := by
  simp [tabulate]

theorem getElem?_tabulate {n : Nat} {f : Nat → β} {i : Nat} (h : i < n) :
    (tabulate n f)[i]? = some (f i) := by
  simp [h]

theorem eq_tabulate {cells : Array β} {n : Nat} {f : Nat → β} (hn : cells.size = n)
    (h : ∀ i (hi : i < cells.size), cells[i] = f i) : cells = tabulate n f := by
  apply Array.ext
  · simp [hn]
  · intro i hi _
    rw [h i hi, getElem_tabulate]

theorem tabulate_congr {n : Nat} {f g : Nat → β} (h : ∀ i < n, f i = g i) :
    tabulate n f = tabulate n g :=
  eq_tabulate (by simp) fun i hi => by rw [getElem_tabulate, h i (by simpa using hi)]

theorem tabulate_succ (n : Nat) (f : Nat → β) :
    tabulate (n + 1) f = (tabulate n f).push (f n) := by
  symm
  apply eq_tabulate (by simp)
  intro i hi
  by_cases h : i < n
  · simp [Array.getElem_push, h]
  · have hn : i = n := by simp at hi; omega
    subst hn
    simp [Array.getElem_push]

theorem read_tabulate {n : Nat} {f : Nat → β} {i : Nat} (h : i < n) :
    read (tabulate n f) i = .ok (f i) := by
  rw [read_eq_ok_iff, getElem?_tabulate h]

theorem write_tabulate {n : Nat} {f : Nat → β} {i : Nat} {x : β} (h : i < n) :
    write (tabulate n f) i x = .ok (tabulate n (Function.update f i x)) := by
  rw [write_of_lt (by simpa using h)]
  congr 1
  apply eq_tabulate (by simp)
  intro j hj
  by_cases hij : i = j
  · subst hij
    simp
  · simp [Array.getElem_set, hij, Function.update_of_ne (Ne.symm hij)]

@[simp] theorem size_fill (cells : Array β) (n : Nat) (f : Nat → β) :
    (fill cells n f).size = cells.size := by
  simp [fill]

@[simp] theorem getElem_fill {cells : Array β} {n : Nat} {f : Nat → β} {i : Nat}
    (h : i < (fill cells n f).size) (hc : i < cells.size) :
    (fill cells n f)[i] = if i < n then f i else cells[i] := by
  simp [fill]

theorem getElem?_fill_of_lt {cells : Array β} {n : Nat} {f : Nat → β} {i : Nat} (hi : i < n)
    (hn : n ≤ cells.size) : (fill cells n f)[i]? = some (f i) := by
  have h : i < cells.size := Nat.lt_of_lt_of_le hi hn
  simp [hi, h]

theorem getElem?_fill_of_ge {cells : Array β} {n : Nat} {f : Nat → β} {i : Nat} (hi : n ≤ i) :
    (fill cells n f)[i]? = cells[i]? := by
  simp [fill, Nat.not_lt.2 hi]

theorem eq_fill {cells out : Array β} {n : Nat} {f : Nat → β} (hs : out.size = cells.size)
    (h : ∀ i (_ : i < out.size) (_ : i < cells.size), out[i] = if i < n then f i else cells[i]) :
    out = fill cells n f := by
  apply Array.ext
  · simp [hs]
  · intro i hi _
    have hc : i < cells.size := hs ▸ hi
    rw [h i hi hc, getElem_fill _ hc]

theorem fill_congr {cells : Array β} {n : Nat} {f g : Nat → β} (h : ∀ i < n, f i = g i) :
    fill cells n f = fill cells n g := by
  apply eq_fill (by simp)
  intro i _ hc
  by_cases hi : i < n
  · simp [hi, h i hi, hc]
  · simp [hi, hc]

theorem fill_all {cells : Array β} {n : Nat} {f : Nat → β} (hn : cells.size = n) :
    fill cells n f = tabulate n f := by
  apply eq_tabulate (by simpa using hn)
  intro i hi
  have hc : i < cells.size := by simpa using hi
  rw [getElem_fill _ hc, if_pos (hn ▸ hc)]

theorem fill_getD (d : β) (cells : Array β) (n : Nat) :
    fill cells n (fun i => cells[i]?.getD d) = cells := by
  symm
  apply eq_fill rfl
  intro i hi _
  simp [hi]

theorem read_fill {cells : Array β} {n : Nat} {f : Nat → β} {i : Nat} (hi : i < n)
    (hn : n ≤ cells.size) : read (fill cells n f) i = .ok (f i) := by
  rw [read_eq_ok_iff, getElem?_fill_of_lt hi hn]

theorem write_fill {cells : Array β} {n : Nat} {f : Nat → β} {i : Nat} {x : β} (hi : i < n)
    (hn : n ≤ cells.size) :
    write (fill cells n f) i x = .ok (fill cells n (Function.update f i x)) := by
  rw [write_of_lt (by simpa using Nat.lt_of_lt_of_le hi hn)]
  congr 1
  apply eq_fill (by simp)
  intro j _ hc
  by_cases hij : i = j
  · subst hij
    simp [hi]
  · simp [hc, hij, Function.update_of_ne (Ne.symm hij)]

theorem write_fill_end {cells : Array β} {n : Nat} {f : Nat → β} {x : β} (hn : n < cells.size) :
    write (fill cells n f) n x = .ok (fill cells (n + 1) (Function.update f n x)) := by
  rw [write_of_lt (by simpa using hn)]
  congr 1
  apply eq_fill (by simp)
  intro j _ hc
  by_cases hnj : n = j
  · subst hnj
    simp
  · have hlt : j < n ↔ j < n + 1 := by omega
    simp [hc, hnj, Function.update_of_ne (Ne.symm hnj), hlt]

theorem write_zero {cells : Array β} {x : β} (h : 1 ≤ cells.size) :
    write cells 0 x = .ok (fill cells 1 fun _ => x) := by
  rw [write_of_lt h]
  congr 1
  apply eq_fill (by simp)
  intro i _ hc
  by_cases hi : i < 1
  · have h0 : i = 0 := by omega
    subst h0
    simp
  · have h0 : ¬0 = i := by omega
    simp [Array.getElem_set, hi, h0]

theorem slice_of_size {cells : Array β} {start stop : Nat} (hs : start ≤ stop)
    (h : stop ≤ cells.size) : slice cells start stop = .ok (cells.extract start stop) := by
  rw [slice, if_pos ⟨hs, h⟩]

theorem extract_front (d : β) {cells : Array β} {n : Nat} (hn : n ≤ cells.size) :
    cells.extract 0 n = tabulate n fun i => cells[i]?.getD d := by
  apply eq_tabulate (by simp [hn])
  intro i hi
  have h : i < cells.size := by simp at hi; omega
  simp [h]

theorem slice_front (d : β) {cells : Array β} {n : Nat} (hn : n ≤ cells.size) :
    slice cells 0 n = .ok (tabulate n fun i => cells[i]?.getD d) := by
  rw [slice_of_size (Nat.zero_le n) hn, extract_front d hn]

theorem extract_fill {cells : Array β} {m n : Nat} {f : Nat → β} (hm : m ≤ n)
    (hn : n ≤ cells.size) : (fill cells n f).extract 0 m = tabulate m f := by
  apply eq_tabulate (by simp [Nat.le_trans hm hn])
  intro i hi
  have h : i < n ∧ i < cells.size := by simp at hi; omega
  simp [h]

theorem slice_fill {cells : Array β} {m n : Nat} {f : Nat → β} (hm : m ≤ n)
    (hn : n ≤ cells.size) : slice (fill cells n f) 0 m = .ok (tabulate m f) := by
  have hsize : m ≤ (fill cells n f).size := by simpa using Nat.le_trans hm hn
  rw [slice_of_size (Nat.zero_le m) hsize, extract_fill hm hn]

theorem fill_eq_append {cells : Array β} {n : Nat} {f : Nat → β} (hn : n ≤ cells.size) :
    fill cells n f = tabulate n f ++ cells.extract n cells.size := by
  symm
  apply eq_fill (by simp; omega)
  intro i _ hc
  by_cases hi : i < n
  · simp [hi]
  · simp [hi, Array.getElem_append, Nat.add_sub_cancel' (Nat.not_lt.1 hi)]

theorem splice_tabulate {cells : Array β} {n : Nat} {f : Nat → β} (hn : n ≤ cells.size) :
    splice cells 0 (tabulate n f) = .ok (fill cells n f) := by
  rw [splice, if_pos (by simpa using hn), fill_eq_append hn]
  simp

theorem write_sole {cells : Array β} {x : β} (h : cells.size = 1) :
    write cells 0 x = .ok #[x] := by
  rw [write_zero (Nat.le_of_eq h.symm), fill_all h]
  rfl

theorem write_both {cells : Array β} {x y : β} (h : cells.size = 2) :
    (write cells 0 x >>= fun cells => write cells 1 y) = .ok #[x, y] := by
  rw [write_zero (by omega), ok_bind, write_fill_end (by omega), fill_all h]
  rfl

theorem splice_whole {cells piece : Array β} (h : piece.size = cells.size) :
    splice cells 0 piece = .ok piece := by
  rw [splice, if_pos (by omega)]
  simp [h]

theorem getElem?_extract_front {cells : Array β} {n i : Nat} (hi : i < n) :
    (cells.extract 0 n)[i]? = cells[i]? := by
  rw [Array.getElem?_extract, Nat.zero_add, Nat.sub_zero]
  split
  · rfl
  · rw [Array.getElem?_eq_none (by omega)]

structure Overwrites (n : Nat) (f : Nat → β) (before after : Array β) : Prop where
  size_eq : after.size = before.size
  front : ∀ i < n, after[i]? = some (f i)
  rest : ∀ i, n ≤ i → after[i]? = before[i]?

theorem overwrites_fill {cells : Array β} {n : Nat} {f : Nat → β} (hn : n ≤ cells.size) :
    Overwrites n f cells (fill cells n f) where
  size_eq := size_fill cells n f
  front _ hi := getElem?_fill_of_lt hi hn
  rest _ hi := getElem?_fill_of_ge hi

theorem overwrites_zero (f : Nat → β) (cells : Array β) : Overwrites 0 f cells cells where
  size_eq := rfl
  front i hi := absurd hi (Nat.not_lt_zero i)
  rest _ _ := rfl

theorem slice_append_front (front back : Array β) :
    slice (front ++ back) 0 front.size = .ok front := by
  rw [slice_of_size (Nat.zero_le _) (by rw [Array.size_append]; exact Nat.le_add_right _ _)]
  simp

theorem slice_append_back (front back : Array β) :
    slice (front ++ back) front.size (front.size + back.size) = .ok back := by
  rw [slice_of_size (Nat.le_add_right _ _) (Nat.le_of_eq Array.size_append.symm)]
  simp

theorem append_of_slices {cells front back : Array β} {m n : Nat}
    (hfront : slice cells 0 m = .ok front) (hback : slice cells m n = .ok back)
    (hn : cells.size = n) : cells = front ++ back := by
  unfold slice at hfront hback
  split at hfront
  · split at hback
    · rename_i hm _
      cases hfront
      cases hback
      rw [Array.extract_append_extract, ← hn, Nat.zero_min, Nat.max_eq_right hm.2,
        Array.extract_size]
    · cases hback
  · cases hfront

theorem splice_append {front old piece : Array β} (h : piece.size = old.size) :
    splice (front ++ old) front.size piece = .ok (front ++ piece) := by
  have hend : front.size + piece.size = (front ++ old).size := by rw [Array.size_append, h]
  rw [splice, if_pos (Nat.le_of_eq hend), hend, Array.extract_size_left, Array.extract_append_left,
    Array.extract_size, Array.append_empty]

end DyadicFourier.Cells
