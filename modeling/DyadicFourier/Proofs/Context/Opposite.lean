import DyadicFourier.Proofs.Context.Replies
import DyadicFourier.Proofs.Exact.Dft
import DyadicFourier.Proofs.Transform.Reflection

namespace DyadicFourier

section Tables

variable {α : Type} {table : Array (Cplx α)} {count j : Nat}

theorem Divides.map_orient [Scalar α] (h : Divides count table) (stored : Sense) :
    Divides count (table.map stored.orient) := by
  constructor
  · rw [Array.size_map]
    exact h.fits
  · rw [Array.size_map]
    exact h.pos
  · rw [Array.size_map]
    exact h.dvd

theorem Twiddles.ofTable_of_dvd (hdvd : 2 ^ j ∣ table.size) (stored sense : Sense) :
    ofTable table (2 ^ j) stored sense = .ok (view table (2 ^ j) stored sense) :=
  ofTable_eq_ok_iff.2
    ⟨⟨Nat.ne_of_gt (Nat.two_pow_pos j), Nat.mod_eq_zero_of_dvd hdvd⟩, rfl⟩

end Tables

namespace Context

variable {R : Type}

theorem complexReply_reflected [Scalar R] [Signed R] [UnitRoots R] {ctx ctx' : Context R}
    {sense sense' : Sense} {count : Nat} {input out out' : Array (Cplx R)} (h : ctx.Sound)
    (h' : ctx'.Sound) (hmax : ctx'.maxCount = ctx.maxCount) (hne : sense ≠ sense')
    (ha : (ctx.complexReply sense count input out).isAccepted = true)
    (ha' : (ctx'.complexReply sense' count (reflected input) out').isAccepted = true) {k : Nat}
    (hk : k < count) : (ctx'.complexReply sense' count (reflected input) out').after[k]? =
      (ctx.complexReply sense count input out).after[k]?.map Cplx.conj := by
  obtain ⟨hr, hin, hout⟩ := isAccepted_complexReply.1 ha
  obtain ⟨hr', hin', hout'⟩ := isAccepted_complexReply.1 ha'
  obtain ⟨j, rfl⟩ := exists_eq_two_pow hr
  have hviews := Twiddles.reflects_unitTable (α := R) hne ctx.maxCount (2 ^ j) ctx.tableSense
    ctx'.tableSense
  have hd' := h'.divides hr'
  rw [hmax] at hd'
  have hbin := cascade_reflected (h.divides hr) hd' hviews hin hk
  rw [complexReply_of_sizes hr hin hout, complexReply_of_sizes hr' hin' hout', roots, roots, hmax]
  change (Cells.fill _ _ _)[k]? = (Cells.fill _ _ _)[k]?.map Cplx.conj
  rw [Cells.getElem?_fill_of_lt hk hout, Cells.getElem?_fill_of_lt hk hout', hbin]
  rfl

variable [CommRing R] [UnitRoots R]

/-- A table has one set of entries for both directions, of which the inverse one stores the
conjugates. -/
theorem opposite_transforms_mirror {sense sense' : Sense} (hne : sense ≠ sense') :
    (∀ (table : Array (Cplx R)) (j : Nat), 2 ^ j ∣ table.size → ∀ stored stored' : Sense,
      ∃ tw tw', Twiddles.ofTable (table.map stored.orient) (2 ^ j) stored sense = .ok tw ∧
        Twiddles.ofTable (table.map stored'.orient) (2 ^ j) stored' sense' = .ok tw' ∧
        ∀ (kernel : Kernel) (input out out' : Array (Cplx R)),
          out.size = 2 ^ j → out'.size = 2 ^ j →
            transform kernel tw' (reflected input) 0 1 out' =
              (transform kernel tw input 0 1 out).map reflected ∧
            (Divides (2 ^ j) table → 2 ^ j ≤ input.size →
              ∃ y, transform kernel tw input 0 1 out = .ok y)) ∧
    ∀ ctx ctx' : Context R, ctx.Reachable → ctx'.Reachable → ctx'.maxCount = ctx.maxCount →
      (∃ table : Array (Cplx R), ctx.table = .ok (table.map ctx.tableSense.orient) ∧
        ctx'.table = .ok (table.map ctx'.tableSense.orient)) ∧
      ∀ count input out out', ∃ reply reply',
        ctx.transformComplex sense count input out = .ok reply ∧
        ctx'.transformComplex sense' count (reflected input) out' = .ok reply' ∧
        (reply.isAccepted = true → reply'.isAccepted = true →
          ∀ k < count, reply'.after[k]? = reply.after[k]?.map Cplx.conj) := by
  constructor
  · intro table j hdvd stored stored'
    have hsize (s : Sense) : 2 ^ j ∣ (table.map s.orient).size := by rwa [Array.size_map]
    refine ⟨_, _, Twiddles.ofTable_of_dvd (hsize stored) stored sense,
      Twiddles.ofTable_of_dvd (hsize stored') stored' sense', ?_⟩
    intro kernel input out out' hout hout'
    constructor
    · exact transform_reflected kernel
        (Twiddles.reflects_view table hne (2 ^ j) stored stored') input 0 1 (hout'.trans hout.symm)
    · intro hd hin
      exact ⟨_, transform_view kernel (hd.map_orient stored) stored sense
        (fun t ht => getElem?_eq_points (Nat.lt_of_lt_of_le ht hin)) hout⟩
  · intro ctx ctx' h h' hmax
    constructor
    · refine ⟨unitTable ctx.maxCount .forward, ?_, ?_⟩
      · rw [← unitTable_eq_map]
        exact h.sound.table_eq
      · rw [← unitTable_eq_map, ← hmax]
        exact h'.sound.table_eq
    · intro count input out out'
      exact ⟨_, _, h.sound.transformComplex_eq sense count input out,
        h'.sound.transformComplex_eq sense' count (reflected input) out',
        fun ha ha' k hk => complexReply_reflected h.sound h'.sound hmax hne ha ha' hk⟩

theorem opposite_transforms_mirror_eight :
    let ctx : Context ℝ := built ⟨16, .forward, false, true⟩ ⟨16, 0⟩ (.fresh 16)
    let ctx' : Context ℝ := built ⟨16, .inverse, false, false⟩ ⟨16, 0⟩ (.fresh 16)
    let table : Array (Cplx ℝ) := Array.replicate 16 ⟨3, 4⟩
    let input : Array (Cplx ℝ) := Array.replicate 8 ⟨1, 2⟩
    let out : Array (Cplx ℝ) := Array.replicate 8 ⟨0, 0⟩
    let out' : Array (Cplx ℝ) := Array.replicate 8 ⟨5, 6⟩
    (∃ tw tw' y, Twiddles.ofTable table 8 .forward .forward = .ok tw ∧
      Twiddles.ofTable (reflected table) 8 .inverse .inverse = .ok tw' ∧
      transform .lanes tw input 0 1 out = .ok y ∧
      transform .lanes tw' (reflected input) 0 1 out' = .ok (reflected y)) ∧
    ctx.Reachable ∧ ctx'.Reachable ∧ ∃ reply reply',
      ctx.forwardComplex 8 input out = .ok reply ∧
      ctx'.inverseComplex 8 (reflected input) out' = .ok reply' ∧
      reply.isAccepted = true ∧ reply'.isAccepted = true ∧
      ∀ k < 8, reply'.after[k]? = reply.after[k]?.map Cplx.conj := by
  intro ctx ctx' table input out out'
  have hl : ctx.config.layout = .ok ⟨16, 0⟩ := by decide
  have hl' : ctx'.config.layout = .ok ⟨16, 0⟩ := by decide
  have h : ctx.Reachable := reachable_fresh hl (by decide)
  have h' : ctx'.Reachable := reachable_fresh hl' (by decide)
  have hin : 8 ≤ input.size := by simp [input]
  have hout : out.size = 8 := by simp [out]
  have hout' : out'.size = 8 := by simp [out']
  have htable : table.size = 16 := by simp [table]
  have hd : Divides 8 table := by
    constructor
    · rw [htable]
      decide
    · omega
    · rw [htable]
      decide
  obtain ⟨htables, hcontexts⟩ :=
    opposite_transforms_mirror (R := ℝ) (by decide : Sense.forward ≠ .inverse)
  obtain ⟨tw, tw', htw, htw', hruns⟩ := htables table 3 hd.dvd .forward .inverse
  obtain ⟨hrun, hdone⟩ := hruns .lanes input out out' hout hout'
  obtain ⟨y, hy⟩ := hdone hd hin
  obtain ⟨-, hcalls⟩ := hcontexts ctx ctx' h h' rfl
  obtain ⟨reply, reply', hreply, hreply', hmirror⟩ := hcalls 8 input out out'
  have ha : reply.isAccepted = true := by
    rw [h.sound.transformComplex_eq] at hreply
    cases hreply
    exact isAccepted_complexReply.2 ⟨by decide, hin, hout.ge⟩
  have ha' : reply'.isAccepted = true := by
    rw [h'.sound.transformComplex_eq] at hreply'
    cases hreply'
    exact isAccepted_complexReply.2 ⟨by decide, by simp [input], hout'.ge⟩
  refine ⟨⟨tw, tw', y, ?_, htw', hy, ?_⟩, h, h', reply, reply', hreply, hreply', ha, ha',
    hmirror ha ha'⟩
  · rw [← htw, show table.map Sense.forward.orient = table from Array.map_id table]
    rfl
  · rw [hrun, hy]
    rfl

end Context

end DyadicFourier
