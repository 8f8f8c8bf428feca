import DyadicFourier.Cells

namespace DyadicFourier

section Bind

variable {ε β β' γ γ' : Type} {f : β → β'} {g : γ → γ'}

theorem map_bind_eq {x : Except ε β} {k : β → Except ε γ} {k' : β' → Except ε γ'}
    (h : ∀ b, k' (f b) = (k b).map g) : (x.map f >>= k') = (x >>= k).map g := by
  cases x with
  | error fault => rfl
  | ok b => exact h b

theorem bind_map_eq {x : Except ε β} {k : β → Except ε γ} {k' : β → Except ε γ'}
    (h : ∀ b, k' b = (k b).map g) : (x >>= k') = (x >>= k).map g := by
  cases x with
  | error fault => rfl
  | ok b => exact h b

theorem foldlM_map_eq {step : γ → β → Except ε γ} {step' : γ' → β → Except ε γ'}
    (h : ∀ c b, step' (g c) b = (step c b).map g) (l : List β) (c : γ) :
    l.foldlM step' (g c) = (l.foldlM step c).map g := by
  induction l generalizing c with
  | nil => rfl
  | cons b l ih =>
      rw [List.foldlM_cons, List.foldlM_cons, h]
      exact map_bind_eq ih

theorem foldlM_range_succ (step : β → Nat → Except ε β) (b : β) (n : Nat) :
    (List.range (n + 1)).foldlM step b = ((List.range n).foldlM step b >>= fun c => step c n) := by
  rw [List.range_succ, List.foldlM_append]
  simp only [List.foldlM_cons, List.foldlM_nil, bind_pure]

end Bind

namespace Cells

variable {β γ : Type} (f : β → γ)

theorem read_map (cells : Array β) (i : Nat) : read (cells.map f) i = (read cells i).map f := by
  by_cases h : i < cells.size
  · rw [read_of_lt h, read_of_lt (by simpa using h), Array.getElem_map]
    rfl
  · rw [read, read, dif_neg h, dif_neg (by simpa using h), Array.size_map]
    rfl

theorem write_map (cells : Array β) (i : Nat) (x : β) :
    write (cells.map f) i (f x) = (write cells i x).map (Array.map f) := by
  by_cases h : i < cells.size
  · rw [write_of_lt h, write_of_lt (by simpa using h), ← Array.map_set]
    rfl
  · rw [write, write, dif_neg h, dif_neg (by simpa using h), Array.size_map]
    rfl

end Cells

end DyadicFourier
