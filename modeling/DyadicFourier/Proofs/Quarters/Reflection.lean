import DyadicFourier.Kernel
import DyadicFourier.Proofs.Cells.Map
import DyadicFourier.Proofs.Exact.Arithmetic

namespace DyadicFourier

variable {α : Type}

/-- The laws of signs. Exact arithmetic has them, and so do four lanes of it. -/
class Signed (α : Type) [Scalar α] : Prop where
  neg_neg : ∀ a : α, - -a = a
  neg_add : ∀ a b : α, -(a + b) = -a + -b
  sub_neg : ∀ a b : α, a - -b = a + b
  neg_mul : ∀ a b : α, -a * b = -(a * b)
  mul_neg : ∀ a b : α, a * -b = -(a * b)

instance {R : Type} [CommRing R] : Signed R where
  neg_neg := neg_neg
  neg_add := neg_add
  sub_neg := sub_neg_eq_add
  neg_mul := neg_mul
  mul_neg := mul_neg

theorem Quad.neg_def [Scalar α] (x : Quad α) : -x = ⟨-x.a, -x.b, -x.c, -x.d⟩ := rfl

instance [Scalar α] [Signed α] : Signed (Quad α) where
  neg_neg _ := by simp only [Quad.neg_def, Signed.neg_neg]
  neg_add _ _ := by simp only [Quad.neg_def, Quad.add_def, Signed.neg_add]
  sub_neg _ _ := by simp only [Quad.neg_def, Quad.add_def, Quad.sub_def, Signed.sub_neg]
  neg_mul _ _ := by simp only [Quad.neg_def, Quad.mul_def, Signed.neg_mul]
  mul_neg _ _ := by simp only [Quad.neg_def, Quad.mul_def, Signed.mul_neg]

theorem Sense.cases_of_ne {sense sense' : Sense} (h : sense ≠ sense') :
    sense = .forward ∧ sense' = .inverse ∨ sense = .inverse ∧ sense' = .forward := by
  cases sense with
  | forward =>
      cases sense' with
      | forward => exact absurd rfl h
      | inverse => exact .inl ⟨rfl, rfl⟩
  | inverse =>
      cases sense' with
      | forward => exact .inr ⟨rfl, rfl⟩
      | inverse => exact absurd rfl h

section Signs

variable [Scalar α] [Signed α]

namespace Signed

theorem add_neg (a b : α) : a + -b = a - b := by
  rw [← sub_neg, neg_neg]

theorem neg_sub (a b : α) : -(a - b) = -a + b := by
  rw [← add_neg, neg_add, neg_neg]

end Signed

namespace Cplx

@[simp] theorem conj_conj (x : Cplx α) : x.conj.conj = x := by
  simp only [conj, Signed.neg_neg]

theorem conj_add (x y : Cplx α) : (x + y).conj = x.conj + y.conj := by
  rw [conj, im_add, Signed.neg_add]
  rfl

theorem conj_sub (x y : Cplx α) : (x - y).conj = x.conj - y.conj := by
  rw [conj, im_sub, Signed.neg_sub, ← Signed.sub_neg]
  rfl

theorem conj_mul (x y : Cplx α) : (x * y).conj = x.conj * y.conj := by
  have hre : (x.conj * y.conj).re = (x * y).re := by
    rw [re_mul, im_conj, im_conj, Signed.neg_mul, Signed.mul_neg, Signed.neg_neg]
    rfl
  have him : (x.conj * y.conj).im = -(x * y).im := by
    rw [im_mul, im_conj, im_conj, Signed.neg_mul, Signed.mul_neg, im_mul, Signed.neg_add]
    rfl
  rw [conj, ← hre, ← him]

theorem conj_addI (x y : Cplx α) : (x.addI y).conj = x.conj.subI y.conj := by
  simp only [conj, addI, subI, Signed.neg_add, Signed.add_neg]

theorem conj_subI (x y : Cplx α) : (x.subI y).conj = x.conj.addI y.conj := by
  simp only [conj, addI, subI, Signed.neg_sub, Signed.sub_neg]

end Cplx

end Signs

def reflected [Scalar α] (points : Array (Cplx α)) : Array (Cplx α) := points.map Cplx.conj

def Row.conj [Scalar α] (f : Row α) : Row α := ⟨f.x0.conj, f.x1.conj, f.x2.conj, f.x3.conj⟩

def Quarters.conj [Scalar α] (q : Quarters α) : Quarters α :=
  ⟨reflected q.q0, reflected q.q1, reflected q.q2, reflected q.q3⟩

structure Twiddles.Reflects [Scalar α] (tw tw' : Twiddles α) : Prop where
  sense_ne : tw.sense ≠ tw'.sense
  get_eq : ∀ k, tw'.get k = (tw.get k).map Cplx.conj

section Reflection

variable [Scalar α]

@[simp] theorem size_reflected (points : Array (Cplx α)) :
    (reflected points).size = points.size :=
  Array.size_map

theorem Cells.read_reflected (points : Array (Cplx α)) (i : Nat) :
    read (reflected points) i = (read points i).map Cplx.conj :=
  read_map Cplx.conj points i

theorem Cells.write_reflected (points : Array (Cplx α)) (i : Nat) (x : Cplx α) :
    write (reflected points) i x.conj = (write points i x).map reflected :=
  write_map Cplx.conj points i x

theorem Cells.load_reflected (points : Array (Cplx α)) (i : Nat) :
    load (reflected points) i = (load points i).map Cplx.conj := by
  simp only [load, readPair, bind_assoc, pure_bind, read_reflected]
  refine map_bind_eq fun z0 => map_bind_eq fun z1 => map_bind_eq fun z2 => map_bind_eq fun z3 => ?_
  rfl

theorem Cells.writePair_reflected (points : Array (Cplx α)) (i : Nat) (z z' : Cplx α) :
    writePair (reflected points) i ⟨z.re, -z.im, z'.re, -z'.im⟩ =
      (writePair points i ⟨z.re, z.im, z'.re, z'.im⟩).map reflected := by
  change (write (reflected points) i z.conj >>= fun p => write p (i + 1) z'.conj) = _
  rw [write_reflected]
  exact map_bind_eq fun p => write_reflected p (i + 1) z'

theorem Cells.store_reflected (points : Array (Cplx α)) (i : Nat) (z : Cplx (Quad α)) :
    store (reflected points) i z.conj = (store points i z).map reflected := by
  obtain ⟨⟨a, b, c, d⟩, ⟨a', b', c', d'⟩⟩ := z
  have hlow := writePair_reflected points i ⟨a, a'⟩ ⟨b, b'⟩
  change (writePair (reflected points) i ⟨a, -a', b, -b'⟩ >>= fun p =>
    writePair p (i + 2) ⟨c, -c', d, -d'⟩) = _
  rw [hlow]
  exact map_bind_eq fun p => writePair_reflected p (i + 2) ⟨c, c'⟩ ⟨d, d'⟩

namespace Quarters

theorem ofArray_reflected (points : Array (Cplx α)) :
    ofArray (reflected points) = (ofArray points).conj := by
  simp only [ofArray, conj, reflected, Array.map_extract, Array.size_map]

theorem toArray_reflected (q : Quarters α) :
    q.conj.toArray = reflected q.toArray := by
  simp only [toArray, conj, reflected, Array.map_append]

theorem row_reflected (q : Quarters α) (i : Nat) :
    q.conj.row i = (q.row i).map Row.conj := by
  simp only [row, conj, Cells.read_reflected]
  refine map_bind_eq fun x0 => map_bind_eq fun x1 => map_bind_eq fun x2 => map_bind_eq fun x3 => ?_
  rfl

theorem setRow_reflected (q : Quarters α) (i : Nat) (x : Row α) :
    q.conj.setRow i x.conj = (q.setRow i x).map conj := by
  simp only [setRow, conj, Row.conj, Cells.write_reflected]
  refine map_bind_eq fun q0 => map_bind_eq fun q1 => map_bind_eq fun q2 => map_bind_eq fun q3 => ?_
  rfl

end Quarters

theorem Lanes.gather_reflected {tw tw' : Twiddles α} (h : tw.Reflects tw') (i step : Nat) :
    gather tw' i step = (gather tw i step).map Cplx.conj := by
  simp only [gather, h.get_eq]
  refine bind_map_eq fun k0 => map_bind_eq fun w0 => ?_
  refine bind_map_eq fun i1 => bind_map_eq fun k1 => map_bind_eq fun w1 => ?_
  refine bind_map_eq fun i2 => bind_map_eq fun k2 => map_bind_eq fun w2 => ?_
  refine bind_map_eq fun i3 => bind_map_eq fun k3 => map_bind_eq fun w3 => ?_
  rfl

variable [Signed α]

theorem butterfly_reflected {sense sense' : Sense} (h : sense ≠ sense') (f : Row α) :
    butterfly sense' f.conj = (butterfly sense f).conj := by
  rcases Sense.cases_of_ne h with ⟨rfl, rfl⟩ | ⟨rfl, rfl⟩
  · simp only [butterfly, Row.conj, Cplx.conj_add, Cplx.conj_sub, Cplx.conj_addI,
      Cplx.conj_subI]
  · simp only [butterfly, Row.conj, Cplx.conj_add, Cplx.conj_sub, Cplx.conj_addI,
      Cplx.conj_subI]

namespace Rows

variable {tw tw' : Twiddles α}

theorem combineRow_reflected (h : tw.Reflects tw') (stride : Nat) (q : Quarters α) (i : Nat) :
    combineRow tw' stride q.conj i = (combineRow tw stride q i).map Quarters.conj := by
  simp only [combineRow, Quarters.row_reflected, h.get_eq]
  refine map_bind_eq fun f => bind_map_eq fun k1 => map_bind_eq fun w1 => ?_
  refine bind_map_eq fun i2 => bind_map_eq fun k2 => map_bind_eq fun w2 => ?_
  refine bind_map_eq fun i3 => bind_map_eq fun k3 => map_bind_eq fun w3 => ?_
  rw [← Quarters.setRow_reflected, ← butterfly_reflected h.sense_ne]
  simp only [Row.conj, Cplx.conj_mul]

theorem combineFrom_reflected (h : tw.Reflects tw') (stride start : Nat) (q : Quarters α) :
    combineFrom tw' stride start q.conj =
      (combineFrom tw stride start q).map Quarters.conj := by
  have hsize : q.conj.q0.size = q.q0.size := size_reflected q.q0
  rw [combineFrom, combineFrom, hsize]
  exact foldlM_map_eq (combineRow_reflected h stride) _ q

theorem combine_reflected (h : tw.Reflects tw') (stride : Nat) (points : Array (Cplx α)) :
    combine tw' stride (reflected points) = (combine tw stride points).map reflected := by
  rw [combine, combine, Quarters.ofArray_reflected, combineFrom_reflected h]
  refine map_bind_eq fun q => ?_
  rw [Quarters.toArray_reflected]
  rfl

end Rows

namespace Lanes

variable {tw tw' : Twiddles α}

theorem combineFour_reflected (h : tw.Reflects tw') (stride : Nat) (q : Quarters α) (i : Nat) :
    combineFour tw' stride q.conj i =
      (combineFour tw stride q i).map Quarters.conj := by
  obtain ⟨q0, q1, q2, q3⟩ := q
  simp only [combineFour, Quarters.conj, Cells.load_reflected, gather_reflected h]
  refine map_bind_eq fun f0 => map_bind_eq fun f1 => map_bind_eq fun f2 => map_bind_eq fun f3 => ?_
  refine map_bind_eq fun w1 => bind_map_eq fun s2 => map_bind_eq fun w2 => ?_
  refine bind_map_eq fun s3 => map_bind_eq fun w3 => ?_
  simp only [← Cplx.conj_mul, ← Cplx.conj_add, ← Cplx.conj_sub, ← Cplx.conj_addI, ← Cplx.conj_subI,
    Cells.store_reflected]
  refine map_bind_eq fun q0 => map_bind_eq fun q2 => ?_
  rcases Sense.cases_of_ne h.sense_ne with ⟨hs, hs'⟩ | ⟨hs, hs'⟩
  · rw [hs, hs']
    refine map_bind_eq fun q1 => map_bind_eq fun q3 => ?_
    rfl
  · rw [hs, hs']
    refine map_bind_eq fun q1 => map_bind_eq fun q3 => ?_
    rfl

theorem combine_reflected (h : tw.Reflects tw') (stride : Nat) (points : Array (Cplx α)) :
    combine tw' stride (reflected points) = (combine tw stride points).map reflected := by
  rw [combine, combine]
  simp only [size_reflected, Quarters.ofArray_reflected]
  rw [foldlM_map_eq (combineFour_reflected h stride)]
  refine map_bind_eq fun q => ?_
  rw [Rows.combineFrom_reflected h]
  refine map_bind_eq fun q => ?_
  rw [Quarters.toArray_reflected]
  rfl

end Lanes

theorem Kernel.combine_reflected (kernel : Kernel) {tw tw' : Twiddles α} (h : tw.Reflects tw')
    (stride : Nat) (points : Array (Cplx α)) : kernel.combine tw' stride (reflected points) =
      (kernel.combine tw stride points).map reflected := by
  cases kernel with
  | rows => exact Rows.combine_reflected h stride points
  | lanes => exact Lanes.combine_reflected h stride points

end Reflection

end DyadicFourier
