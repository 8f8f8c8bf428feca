import DyadicFourier.Proofs.Quarters.Reflection
import DyadicFourier.Proofs.Transform.Views

namespace DyadicFourier

variable {α : Type} [Scalar α]

theorem points_reflected {cells : Array (Cplx α)} {i : Nat} (h : i < cells.size) :
    points (reflected cells) i = (points cells i).conj := by
  simp [points, reflected, h]

variable [Signed α] {tw tw' : Twiddles α}

theorem transform_reflected_four (kernel : Kernel) (h : tw.Reflects tw')
    {input out out' : Array (Cplx α)} {offset stride : Nat} (hout : out.size = 4)
    (hout' : out'.size = 4) : transform kernel tw' (reflected input) offset stride out' =
      (transform kernel tw input offset stride out).map reflected := by
  rw [transform_of_four hout, transform_of_four hout']
  simp only [Cells.read_reflected]
  refine map_bind_eq fun x0 => bind_map_eq fun i1 => map_bind_eq fun x1 => ?_
  refine bind_map_eq fun s2 => bind_map_eq fun i2 => map_bind_eq fun x2 => ?_
  refine bind_map_eq fun s3 => bind_map_eq fun i3 => map_bind_eq fun x3 => ?_
  have hrow := butterfly_reflected h.sense_ne ⟨x0, x1, x2, x3⟩
  simp only [Row.conj] at hrow
  simp [Except.map, reflected, pure_eq_ok, hrow]

theorem transform_reflected_quarters (kernel : Kernel) (h : tw.Reflects tw')
    {input out out' : Array (Cplx α)} {offset stride m : Nat} (hm : 1 < m)
    (hout : out.size = 4 * m) (hout' : out'.size = 4 * m)
    (hrec : ∀ offset stride, ∀ part part' : Array (Cplx α), part.size = m → part'.size = m →
      transform kernel tw' (reflected input) offset stride part' =
        (transform kernel tw input offset stride part).map reflected) :
    transform kernel tw' (reflected input) offset stride out' =
      (transform kernel tw input offset stride out).map reflected := by
  obtain ⟨h0, h1, h2, h3⟩ := Quarters.size_ofArray hout
  obtain ⟨h0', h1', h2', h3'⟩ := Quarters.size_ofArray hout'
  rw [transform_of_quarters (by omega), transform_of_quarters (by omega)]
  simp only [hrec _ _ _ _ h0 h0', hrec _ _ _ _ h1 h1', hrec _ _ _ _ h2 h2', hrec _ _ _ _ h3 h3']
  refine bind_map_eq fun s4 => map_bind_eq fun q0 => ?_
  refine bind_map_eq fun i1 => map_bind_eq fun q1 => ?_
  refine bind_map_eq fun s2 => bind_map_eq fun i2 => map_bind_eq fun q2 => ?_
  refine bind_map_eq fun s3 => bind_map_eq fun i3 => map_bind_eq fun q3 => ?_
  rw [← kernel.combine_reflected h, ← Quarters.toArray_reflected]
  rfl

theorem transform_reflected (kernel : Kernel) (h : tw.Reflects tw') (input : Array (Cplx α))
    (offset stride : Nat) {out out' : Array (Cplx α)} (hsize : out'.size = out.size) :
    transform kernel tw' (reflected input) offset stride out' =
      (transform kernel tw input offset stride out).map reflected := by
  induction hn : out.size using Nat.strong_induction_on generalizing offset stride out out' with
  | _ n ih =>
    subst hn
    by_cases hs : Splittable out.size
    · obtain h1 | h2 | h4 | hq := hs
      · rw [transform_of_one h1, transform_of_one (hsize.trans h1), Cells.read_reflected]
        refine map_bind_eq fun x => ?_
        simp [Except.map, reflected, pure_eq_ok]
      · rw [transform_of_two h2, transform_of_two (hsize.trans h2)]
        simp only [Cells.read_reflected]
        refine map_bind_eq fun a => bind_map_eq fun i => map_bind_eq fun b => ?_
        simp [Except.map, reflected, pure_eq_ok, Cplx.conj_add, Cplx.conj_sub]
      · exact transform_reflected_four kernel h h4 (hsize.trans h4)
      · obtain ⟨m, hm⟩ : ∃ m, out.size = 4 * m := ⟨out.size / 4, by omega⟩
        exact transform_reflected_quarters kernel h (by omega) hm (hsize.trans hm)
          fun offset stride part part' hp hp' =>
            ih m (by omega) offset stride (hp'.trans hp.symm) hp
    · rw [transform_of_not_splittable hs, transform_of_not_splittable (hsize ▸ hs), hsize]
      rfl

theorem Sense.orient_stored (stored sense : Sense) (w : Cplx α) :
    (if (stored != sense) = true then (stored.orient w).conj else stored.orient w) =
      sense.orient w := by
  cases stored with
  | forward => cases sense <;> rfl
  | inverse =>
      cases sense with
      | forward => exact Cplx.conj_conj w
      | inverse => rfl

theorem Sense.orient_of_ne {sense sense' : Sense} (h : sense ≠ sense') (w : Cplx α) :
    sense'.orient w = (sense.orient w).conj := by
  rcases cases_of_ne h with ⟨rfl, rfl⟩ | ⟨rfl, rfl⟩
  · rfl
  · exact (Cplx.conj_conj w).symm

namespace Twiddles

variable (table : Array (Cplx α))

theorem get_oriented (count : Nat) (stored sense : Sense) (k : Nat) :
    (view (table.map stored.orient) count stored sense).get k = (do
      let i ← Word.times k (table.size / count)
      (Cells.read table i).map sense.orient) := by
  simp only [get, view, Array.size_map, Cells.read_map]
  refine bind_congr fun i => ?_
  cases Cells.read table i with
  | error fault => rfl
  | ok w => exact congrArg Except.ok (Sense.orient_stored stored sense w)

theorem reflects_view {sense sense' : Sense} (hne : sense ≠ sense') (count : Nat)
    (stored stored' : Sense) :
    (view (table.map stored.orient) count stored sense).Reflects
      (view (table.map stored'.orient) count stored' sense') := by
  refine ⟨hne, fun k => ?_⟩
  rw [get_oriented, get_oriented]
  refine bind_map_eq fun i => ?_
  cases Cells.read table i with
  | error fault => rfl
  | ok w => exact congrArg Except.ok (Sense.orient_of_ne hne w)

end Twiddles

theorem cascade_reflected {table table' input : Array (Cplx α)} {j : Nat}
    {stored stored' sense sense' : Sense} (hd : Divides (2 ^ j) table)
    (hd' : Divides (2 ^ j) table') (h : (Twiddles.view table (2 ^ j) stored sense).Reflects
      (.view table' (2 ^ j) stored' sense')) (hin : 2 ^ j ≤ input.size) {k : Nat}
    (hk : k < 2 ^ j) :
    cascade sense' (Twiddles.view table' (2 ^ j) stored' sense').root j 1
        (points (reflected input)) k =
      (cascade sense (Twiddles.view table (2 ^ j) stored sense).root j 1
        (points input) k).conj := by
  have hroom : (input.extract 0 (2 ^ j)).size = 2 ^ j := by
    rw [Array.size_extract]
    omega
  have hrun := transform_view .rows hd stored sense
    (fun t ht => getElem?_eq_points (Nat.lt_of_lt_of_le ht hin)) hroom
  have hin' : 2 ^ j ≤ (reflected input).size := by rwa [size_reflected]
  have hrun' := transform_view .rows hd' stored' sense'
    (fun t ht => getElem?_eq_points (Nat.lt_of_lt_of_le ht hin')) hroom
  rw [transform_reflected .rows h input 0 1 rfl, hrun] at hrun'
  have hcell := congrArg (points · k) (Except.ok.inj hrun')
  simp only [points_reflected (Nat.lt_of_lt_of_eq hk (Cells.size_tabulate _ _).symm),
    points_tabulate hk] at hcell
  exact hcell.symm

variable [UnitRoots α]

theorem Twiddles.reflects_unitTable {sense sense' : Sense} (hne : sense ≠ sense')
    (n count : Nat) (stored stored' : Sense) :
    (view (unitTable n stored : Array (Cplx α)) count stored sense).Reflects
      (view (unitTable n stored') count stored' sense') := by
  have h := reflects_view (unitTable n .forward : Array (Cplx α)) hne count stored stored'
  rwa [← unitTable_eq_map, ← unitTable_eq_map] at h

end DyadicFourier
