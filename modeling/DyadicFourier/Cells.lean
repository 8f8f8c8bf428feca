import DyadicFourier.Fault

namespace DyadicFourier.Cells

variable {β : Type}

def read (cells : Array β) (i : Nat) : Checked β :=
  if h : i < cells.size then .ok cells[i] else .error (.outOfRange i cells.size)

def write (cells : Array β) (i : Nat) (x : β) : Checked (Array β) :=
  if h : i < cells.size then .ok (cells.set i x h) else .error (.outOfRange i cells.size)

def slice (cells : Array β) (start stop : Nat) : Checked (Array β) :=
  if start ≤ stop ∧ stop ≤ cells.size then .ok (cells.extract start stop)
  else .error (.badSpan start stop cells.size)

def splice (cells : Array β) (start : Nat) (piece : Array β) : Checked (Array β) :=
  if start + piece.size ≤ cells.size then
    .ok (cells.extract 0 start ++ piece ++ cells.extract (start + piece.size) cells.size)
  else .error (.badSpan start (start + piece.size) cells.size)

theorem read_of_lt {cells : Array β} {i : Nat} (h : i < cells.size) :
    read cells i = .ok cells[i] := by
  simp [read, h]

theorem read_eq_ok_iff {cells : Array β} {i : Nat} {x : β} :
    read cells i = .ok x ↔ cells[i]? = some x := by
  unfold read
  split <;> simp_all

theorem write_of_lt {cells : Array β} {i : Nat} {x : β} (h : i < cells.size) :
    write cells i x = .ok (cells.set i x h) := by
  simp [write, h]

theorem getElem?_write {cells out : Array β} {i : Nat} {x : β} (h : write cells i x = .ok out)
    (j : Nat) : out[j]? = if i = j then some x else cells[j]? := by
  unfold write at h
  split at h
  · cases h
    rw [Array.getElem?_set]
  · simp at h

theorem size_slice {cells piece : Array β} {start stop : Nat}
    (h : slice cells start stop = .ok piece) : piece.size = stop - start := by
  unfold slice at h
  split at h
  · rename_i hs
    cases h
    simp [Array.size_extract, Nat.min_eq_left hs.2]
  · simp at h

end DyadicFourier.Cells
