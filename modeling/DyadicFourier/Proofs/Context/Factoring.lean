import DyadicFourier.Proofs.Context.Footprint

namespace DyadicFourier

open Cells (Overwrites)

variable {α : Type} [Scalar α]

def directRow (join : Cplx α → Cplx α → Cplx α) (w z z' : Cplx α) : Cplx α :=
  join ⟨z.re + z'.re, z.im - z'.im⟩ (⟨-w.im, w.re⟩ * ⟨z.re - z'.re, z.im + z'.im⟩)

/-- The row of the opposite bin `z'`, from the sum and the difference of the row of `z`. Without the
laws of a ring it is not the direct row of `z'`. -/
def mirroredRow (join : Cplx α → Cplx α → Cplx α) (w z z' : Cplx α) : Cplx α :=
  join ⟨z.re + z'.re, -(z.im - z'.im)⟩ (⟨-w.im, w.re⟩ * ⟨-(z.re - z'.re), z.im + z'.im⟩)

/-- Row `k` of `count / 2 + 1`, from bins that no row has been written over. -/
def rowFormula (join : Cplx α → Cplx α → Cplx α) (w z : Nat → Cplx α) (count k : Nat) : Cplx α :=
  if k < count / 4 ∨ count = 2 ∧ k = 0 then directRow join (w k) (z k) (z (count / 2 - k))
  else mirroredRow join (w k) (z (count / 2 - k)) (z k)

section Rows

variable {j k : Nat}

theorem lt_quarter_iff : 2 * k < 2 ^ j ↔ k < 2 ^ (j + 1) / 4 ∨ 2 ^ (j + 1) = 2 ∧ k = 0 := by
  cases j with
  | zero => omega
  | succ i =>
      have hpos := Nat.two_pow_pos i
      have hhalf : 2 ^ (i + 1) = 2 * 2 ^ i := Nat.pow_succ'
      have hcount : 2 ^ (i + 1 + 1) = 2 * 2 ^ (i + 1) := Nat.pow_succ'
      omega

theorem crossed_eq_rowFormula {joinParts : Cplx α → Parts α → Cplx α}
    {join : Cplx α → Cplx α → Cplx α}
    (hjoin : ∀ w p, joinParts w p = join p.sum (⟨-w.im, w.re⟩ * p.diff)) (w z : Nat → Cplx α)
    (hk : k ≤ 2 ^ j) :
    crossed joinParts w (2 ^ j) z k = rowFormula join w z (2 ^ (j + 1)) k := by
  have hback : 2 ^ j - (2 ^ j - k) = k := Nat.sub_sub_self hk
  simp only [crossed, mirrored, rowFormula, lt_quarter_iff, hback, two_pow_succ_div_two, hjoin]
  rfl

end Rows

namespace Context

variable [UnitRoots α]

def coefficient (ctx : Context α) (sense : Sense) (count k : Nat) : Cplx α :=
  sense.orient (UnitRoots.root (k * (ctx.maxCount / count)) ctx.maxCount)

/-- The rows separated from the bins `y` of the pairs, the first of which closes the period. -/
def separatedRows (ctx : Context α) (count : Nat) (y : Array (Cplx α)) : Nat → Cplx α :=
  rowFormula (fun sum diff => sum - diff) (ctx.coefficient .forward count)
    (Function.update (points y) (count / 2) (points y 0)) count

def reunitedRows (ctx : Context α) (count : Nat) (input : Array (Cplx α)) : Nat → Cplx α :=
  rowFormula (fun sum diff => sum + diff) (ctx.coefficient .inverse count) (points input) count

/-- The bins come from a transform of the samples taken in pairs. -/
def Analyzes (ctx : Context α) (count : Nat) (samples : Array α) (after : Array (Cplx α)) : Prop :=
  ∀ room : Array (Cplx α), count / 2 ≤ room.size →
    ∃ y, ctx.forwardComplex (count / 2) (Cells.tabulate (count / 2) (paired (numbers samples)))
        room = .ok (.accepted y) ∧
      ∀ k ≤ count / 2, after[k]? = some (ctx.separatedRows count y k)

/-- The samples are the points, one after the other, of a transform of the reunited rows. -/
def Synthesizes (ctx : Context α) (count : Nat) (input : Array (Cplx α))
    (before after : Array α) : Prop :=
  ∀ room : Array (Cplx α), count / 2 ≤ room.size →
    ∃ y, ctx.inverseComplex (count / 2)
        (Cells.tabulate (count / 2 + 1) (ctx.reunitedRows count input)) room =
          .ok (.accepted y) ∧
      Overwrites count (interleaved (points y)) before after

namespace Sound

variable {ctx : Context α} {sense : Sense} {j : Nat}

theorem transformComplex_tabulate (h : ctx.Sound) (hr : ctx.refusal? (2 ^ j) sense = none)
    {n : Nat} (hn : 2 ^ j ≤ n) (x : Nat → Cplx α) {room : Array (Cplx α)}
    (hroom : 2 ^ j ≤ room.size) :
    ctx.transformComplex sense (2 ^ j) (Cells.tabulate n x) room =
      .ok (.accepted (Cells.fill room (2 ^ j)
        (cascade sense (ctx.roots sense (2 ^ j)) j 1 x))) := by
  have hsame : cascade sense (ctx.roots sense (2 ^ j)) j 1 (points (Cells.tabulate n x)) =
      cascade sense (ctx.roots sense (2 ^ j)) j 1 x :=
    funext fun k => cascade_congr (fun t ht => points_tabulate (Nat.lt_of_lt_of_le ht hn)) k
  have hin : 2 ^ j ≤ (Cells.tabulate n x).size := hn.trans_eq (Cells.size_tabulate n x).symm
  rw [h.transformComplex_eq, complexReply_of_sizes hr hin hroom, hsame]

theorem roots_eq_coefficient (h : ctx.Sound) (hr : ctx.refusal? (2 ^ (j + 1)) sense = none)
    {k : Nat} (hk : k ≤ 2 ^ j) :
    ctx.roots sense (2 ^ (j + 1)) k = ctx.coefficient sense (2 ^ (j + 1)) k :=
  h.roots_eq hr (Nat.lt_of_le_of_lt hk (Nat.pow_lt_pow_succ Nat.one_lt_two))

theorem realBins_eq_separatedRows (h : ctx.Sound)
    (hr : ctx.refusal? (2 ^ (j + 1)) .forward = none) (x : Nat → α) {room : Array (Cplx α)}
    (hroom : 2 ^ j ≤ room.size) {k : Nat} (hk : k ≤ 2 ^ j) :
    realBins (unitTable ctx.maxCount ctx.tableSense) ctx.tableSense (j + 1) x k =
      ctx.separatedRows (2 ^ (j + 1)) (Cells.fill room (2 ^ j)
        (cascade .forward (ctx.roots .forward (2 ^ j)) j 1 (paired x))) k := by
  rw [separatedRows, two_pow_succ_div_two, ← crossed_eq_rowFormula (fun _ _ => rfl) _ _ hk]
  refine congrFun (crossed_congr ?_ ?_) k
  · intro i hi
    exact h.roots_eq_coefficient hr hi
  · intro i hi
    rw [points_fill (Nat.two_pow_pos j) hroom, pairBins]
    rcases Nat.lt_or_eq_of_le hi with hlt | rfl
    · rw [Function.update_of_ne (Nat.ne_of_lt hlt), Function.update_of_ne (Nat.ne_of_lt hlt),
        points_fill hlt hroom]
      rfl
    · rw [Function.update_self, Function.update_self]
      rfl

theorem reunitedBins_eq_reunitedRows (h : ctx.Sound)
    (hr : ctx.refusal? (2 ^ (j + 1)) .inverse = none) (input : Array (Cplx α)) {k : Nat}
    (hk : k ≤ 2 ^ j) :
    reunitedBins (unitTable ctx.maxCount ctx.tableSense) ctx.tableSense j (points input) k =
      ctx.reunitedRows (2 ^ (j + 1)) input k := by
  rw [reunitedRows, ← crossed_eq_rowFormula (fun _ _ => rfl) _ _ hk]
  exact congrFun (crossed_congr (fun i hi => h.roots_eq_coefficient hr hi) fun _ _ => rfl) k

theorem analyzes (h : ctx.Sound) (hr : ctx.refusal? (2 ^ (j + 1)) .forward = none)
    (samples : Array α) {out : Array (Cplx α)} (hout : 2 ^ j + 1 ≤ out.size) :
    ctx.Analyzes (2 ^ (j + 1)) samples (Cells.fill out (2 ^ j + 1)
      (realBins (unitTable ctx.maxCount ctx.tableSense) ctx.tableSense (j + 1)
        (numbers samples))) := by
  rw [Analyzes, two_pow_succ_div_two]
  intro room hroom
  refine ⟨_, h.transformComplex_tabulate (refusal?_shorter (Nat.le_succ j) hr) (Nat.le_refl _)
    (paired (numbers samples)) hroom, fun k hk => ?_⟩
  rw [Cells.getElem?_fill_of_lt (Nat.lt_succ_of_le hk) hout,
    h.realBins_eq_separatedRows hr _ hroom hk]

theorem synthesizes (h : ctx.Sound) (hr : ctx.refusal? (2 ^ (j + 1)) .inverse = none)
    (input : Array (Cplx α)) {output : Array α} (hout : 2 ^ (j + 1) ≤ output.size) :
    ctx.Synthesizes (2 ^ (j + 1)) input output (Cells.fill output (2 ^ (j + 1))
      (realSums (unitTable ctx.maxCount ctx.tableSense) ctx.tableSense (j + 1)
        (points input))) := by
  have hsums : pairSums (unitTable ctx.maxCount ctx.tableSense) ctx.tableSense j (points input) =
      cascade .inverse (ctx.roots .inverse (2 ^ j)) j 1
        (ctx.reunitedRows (2 ^ (j + 1)) input) :=
    funext fun k => cascade_congr
      (fun t ht => h.reunitedBins_eq_reunitedRows hr input (Nat.le_of_lt ht)) k
  rw [Synthesizes, two_pow_succ_div_two]
  intro room hroom
  refine ⟨_, h.transformComplex_tabulate (refusal?_shorter (Nat.le_succ j) hr)
    (Nat.le_succ (2 ^ j)) (ctx.reunitedRows (2 ^ (j + 1)) input) hroom, ?_⟩
  have hcount : 2 ^ (j + 1) = 2 * 2 ^ j := Nat.pow_succ'
  rw [hcount] at hout
  rw [realSums, hsums, hcount, ← fill_interleaved_points output hroom]
  exact Cells.overwrites_fill hout

theorem analyzes_forwardReply (h : ctx.Sound) {count : Nat} (hcount : 2 ≤ count)
    {samples : Array α} {out : Array (Cplx α)}
    (ha : (ctx.forwardReply count samples out).isAccepted = true) :
    ctx.Analyzes count samples (ctx.forwardReply count samples out).after := by
  obtain ⟨hr, hin, hout⟩ := isAccepted_forwardReply.1 ha
  have hr' := (realRefusal?_eq_none_iff.1 hr).2
  obtain ⟨j, rfl⟩ := exists_eq_two_pow_succ hr' hcount
  rw [forwardReply_of_sizes hr hin hout]
  rw [two_pow_succ_div_two] at hout ⊢
  exact h.analyzes hr' samples hout

theorem synthesizes_inverseReply (h : ctx.Sound) {count : Nat} (hcount : 2 ≤ count)
    {input : Array (Cplx α)} {ws : Workspace α}
    (ha : (ctx.inverseReply count input ws).isAccepted = true) :
    ctx.Synthesizes count input ws.output (ctx.inverseReply count input ws).after.output ∧
      ∀ k ≤ count / 2, (ctx.inverseReply count input ws).after.scratch[k]? =
        some (ctx.reunitedRows count input k) := by
  obtain ⟨hr, ⟨hin, hout⟩, hscratch⟩ := isAccepted_inverseReply.1 ha
  have hr' := (realRefusal?_eq_none_iff.1 hr).2
  obtain ⟨j, rfl⟩ := exists_eq_two_pow_succ hr' hcount
  rw [inverseReply_of_sizes hr hin hout hscratch]
  rw [two_pow_succ_div_two] at hscratch
  refine ⟨h.synthesizes hr' input hout, fun k hk => ?_⟩
  rw [two_pow_succ_div_two] at hk
  change (Cells.fill _ _ _)[k]? = _
  rw [Cells.getElem?_fill_of_lt (Nat.lt_succ_of_le hk) hscratch,
    h.reunitedBins_eq_reunitedRows hr' input hk]

end Sound

theorem real_transforms_factor {ctx : Context α} (h : ctx.Reachable) {count : Nat}
    (hcount : 2 ≤ count) :
    (∀ samples out, Ensures (ctx.forwardReal count samples out) (ctx.Analyzes count samples)) ∧
    (∀ input output, Ensures (ctx.inverseReal count input output) fun after =>
      ctx.Synthesizes count input output after.2) ∧
    ∀ input ws, Ensures (ctx.inverseRealWith count input ws) fun after =>
      ctx.Synthesizes count input ws.output after.output ∧
      ∀ k ≤ count / 2, after.scratch[k]? = some (ctx.reunitedRows count input k) := by
  refine ⟨fun samples out => ?_, fun input output => ?_, fun input ws => ?_⟩
  · exact ⟨_, h.sound.forwardReal_eq count samples out, h.sound.analyzes_forwardReply hcount⟩
  · obtain ⟨scratch, hs, -⟩ := h.sound.scratch_eq
    exact ⟨_, h.sound.inverseReal_rows hs count input output,
      fun ha => (h.sound.synthesizes_inverseReply hcount ha).1⟩
  · exact ⟨_, h.sound.inverseRealWith_eq count input ws,
      h.sound.synthesizes_inverseReply hcount⟩

theorem real_transforms_factor_sixteen :
    let ctx : Context Float32 := built ⟨16, .both, true, true⟩ ⟨16, 9⟩ (.fresh 25)
    let samples : Array Float32 := Array.replicate 11 1
    let bins : Array (Cplx Float32) := Array.replicate 7 ⟨2, 3⟩
    ctx.Reachable ∧
      (∃ reply, ctx.forwardReal 8 samples bins = .ok reply ∧ reply.isAccepted = true ∧
        ctx.Analyzes 8 samples reply.after) ∧
      ∃ reply, ctx.inverseReal 8 bins samples = .ok reply ∧ reply.isAccepted = true ∧
        ctx.Synthesizes 8 bins samples reply.after.2 := by
  intro ctx samples bins
  have hl : ctx.config.layout = .ok ⟨16, 9⟩ := by decide
  have h : ctx.Reachable := reachable_fresh hl (by decide)
  have hsamples : 8 ≤ samples.size := by simp [samples]
  have hbins : 8 / 2 + 1 ≤ bins.size := by simp [bins]
  obtain ⟨hanalyzes, hsynthesizes, -⟩ := real_transforms_factor h (by decide : 2 ≤ 8)
  obtain ⟨reply, hforward, hbound⟩ := hanalyzes samples bins
  obtain ⟨reply', hinverse, hbound'⟩ := hsynthesizes bins samples
  have ha : reply.isAccepted = true := by
    rw [h.sound.forwardReal_eq] at hforward
    cases hforward
    exact isAccepted_forwardReply.2 ⟨by decide, hsamples, hbins⟩
  have ha' : reply'.isAccepted = true := by
    obtain ⟨after, hafter, -⟩ :=
      h.sound.inverseReal_samples (j := 3) (by decide) hbins hsamples
    cases hinverse.symm.trans hafter
    rfl
  exact ⟨h, ⟨reply, hforward, ha, hbound ha⟩, reply', hinverse, ha', hbound' ha'⟩

end Context

end DyadicFourier
