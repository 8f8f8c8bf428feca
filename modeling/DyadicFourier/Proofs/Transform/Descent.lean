import DyadicFourier.Transform
import DyadicFourier.Proofs.Cells.Fill

namespace DyadicFourier

inductive Descends : Nat → Nat → Prop
  | refl (n : Nat) : Descends n n
  | quarter {n l : Nat} : n ≠ 1 → n ≠ 2 → n ≠ 4 → Descends (n / 4) l → Descends n l

def Splittable (l : Nat) : Prop := l = 1 ∨ l = 2 ∨ l = 4 ∨ 4 < l ∧ l % 4 = 0

variable {α : Type} [Scalar α] {kernel : Kernel} {tw : Twiddles α}
  {input out after : Array (Cplx α)} {offset stride : Nat}

-- what the output cells held before occurs in none of these

theorem transform_of_one (h : out.size = 1) : transform kernel tw input offset stride out = do
    return #[← Cells.read input offset] := by
  rw [transform, if_pos h]
  simp only [Cells.write_sole h]
  rfl

theorem transform_of_two (h : out.size = 2) : transform kernel tw input offset stride out = do
    let a ← Cells.read input offset
    let b ← Cells.read input (← Word.plus offset stride)
    return #[a + b, a - b] := by
  rw [transform, if_neg (by omega), if_pos h]
  simp only [Cells.write_both h]
  rfl

theorem transform_of_four (h : out.size = 4) : transform kernel tw input offset stride out = do
    let x : Row α := ⟨← Cells.read input offset,
      ← Cells.read input (← Word.plus offset stride),
      ← Cells.read input (← Word.plus offset (← Word.times 2 stride)),
      ← Cells.read input (← Word.plus offset (← Word.times 3 stride))⟩
    let y := butterfly tw.sense x
    return #[y.x0, y.x1, y.x2, y.x3] := by
  rw [transform, if_neg (by omega), if_neg (by omega), if_pos h]
  have hsplice (y : Row α) :
      Cells.splice out 0 #[y.x0, y.x1, y.x2, y.x3] = .ok #[y.x0, y.x1, y.x2, y.x3] :=
    Cells.splice_whole h.symm
  simp only [hsplice]
  rfl

theorem transform_of_quarters (h : 4 < out.size ∧ out.size % 4 = 0) :
    transform kernel tw input offset stride out = (do
      let q := Quarters.ofArray out
      let stride4 ← Word.times stride 4
      let q0 ← transform kernel tw input offset stride4 q.q0
      let q1 ← transform kernel tw input (← Word.plus offset stride) stride4 q.q1
      let q2 ← transform kernel tw input (← Word.plus offset (← Word.times 2 stride)) stride4 q.q2
      let q3 ← transform kernel tw input (← Word.plus offset (← Word.times 3 stride)) stride4 q.q3
      kernel.combine tw stride (Quarters.toArray ⟨q0, q1, q2, q3⟩)) := by
  rw [transform, if_neg (by omega), if_neg (by omega), if_neg (by omega), dif_pos (by omega)]

theorem transform_of_not_splittable (h : ¬Splittable out.size) :
    transform kernel tw input offset stride out = .error (.indivisible out.size 4) := by
  simp only [Splittable, not_or] at h
  rw [transform, if_neg h.1, if_neg h.2.1, if_neg h.2.2.1, dif_neg (by omega)]

theorem transform_splittable (h : transform kernel tw input offset stride out = .ok after) :
    Splittable out.size := by
  by_contra hs
  rw [transform_of_not_splittable hs] at h
  cases h

theorem transform_quarter_exists (h : transform kernel tw input offset stride out = .ok after)
    (h1 : out.size ≠ 1) (h2 : out.size ≠ 2) (h4 : out.size ≠ 4) :
    (4 < out.size ∧ out.size % 4 = 0) ∧ ∃ stride' part,
      transform kernel tw input offset stride' (Quarters.ofArray out).q0 = .ok part := by
  obtain h1' | h2' | h4' | hq := transform_splittable h
  · exact absurd h1' h1
  · exact absurd h2' h2
  · exact absurd h4' h4
  rw [transform_of_quarters hq] at h
  simp only [bind_eq_ok_iff] at h
  obtain ⟨stride', -, part, hpart, -⟩ := h
  exact ⟨hq, stride', part, hpart⟩

theorem Descends.splittable {n l : Nat} (hl : Descends n l) (hn : out.size = n)
    (h : transform kernel tw input offset stride out = .ok after) : Splittable l := by
  induction hl generalizing stride out after with
  | refl n => exact hn ▸ transform_splittable h
  | quarter h1 h2 h4 _ ih =>
      subst hn
      -- all quarters have one size, so the run on the first of them speaks for the rest
      obtain ⟨⟨_, hmod⟩, stride', part, hpart⟩ := transform_quarter_exists h h1 h2 h4
      have hquarter : (Quarters.ofArray out).q0.size = out.size / 4 :=
        (Quarters.size_ofArray (by omega)).1
      exact ih hquarter hpart

end DyadicFourier
