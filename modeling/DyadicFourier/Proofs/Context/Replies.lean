import DyadicFourier.Context.Complex
import DyadicFourier.Proofs.Context.Guards
import DyadicFourier.Proofs.Context.Storage
import DyadicFourier.Proofs.Spectrum.Halves

namespace DyadicFourier.Context

variable {α : Type}

theorem exists_eq_two_pow {ctx : Context α} {count : Nat} {sense : Sense}
    (hr : ctx.refusal? count sense = none) : ∃ j, count = 2 ^ j :=
  Word.isPowerOfTwo_iff.1 (refusal?_eq_none_iff.1 hr).1

theorem exists_eq_two_pow_succ {ctx : Context α} {count : Nat} {sense : Sense}
    (hr : ctx.refusal? count sense = none) (hcount : 2 ≤ count) : ∃ j, count = 2 ^ (j + 1) := by
  obtain ⟨_ | j, rfl⟩ := exists_eq_two_pow hr
  · exact absurd hcount (by decide)
  · exact ⟨j, rfl⟩

theorem refusal?_two_pow {ctx : Context α} {j : Nat} {sense : Sense} (hj : 2 ^ j ≤ ctx.maxCount)
    (hs : ctx.config.direction.supports sense = true) : ctx.refusal? (2 ^ j) sense = none :=
  refusal?_eq_none_iff.2 ⟨Word.isPowerOfTwo_pow j, hj, hs⟩

theorem refusal?_shorter {ctx : Context α} {i j : Nat} {sense : Sense} (hij : i ≤ j)
    (hr : ctx.refusal? (2 ^ j) sense = none) : ctx.refusal? (2 ^ i) sense = none := by
  obtain ⟨_, hle, hs⟩ := refusal?_eq_none_iff.1 hr
  exact refusal?_two_pow (Nat.le_trans (Nat.pow_le_pow_right Nat.two_pos hij) hle) hs

variable [Scalar α] [UnitRoots α]

def roots (ctx : Context α) (sense : Sense) (count : Nat) : Nat → Cplx α :=
  (Twiddles.view (unitTable ctx.maxCount ctx.tableSense) count ctx.tableSense sense).root

/-- What a transform of points answers, whatever the kernel, the storage and the scratch. -/
def complexReply (ctx : Context α) (sense : Sense) (count : Nat) (input out : Array (Cplx α)) :
    Reply (Array (Cplx α)) :=
  .guarded (ctx.refusal? count sense) (fun cause => [.complexRejected count sense cause]) out <|
  .guarded (lengthRefusal? input.size count out.size count) (fun _ => []) out <|
  .accepted (Cells.fill out count
    (cascade sense (ctx.roots sense count) count.log2 1 (points input)))

def forwardReply (ctx : Context α) (count : Nat) (input : Array α) (out : Array (Cplx α)) :
    Reply (Array (Cplx α)) :=
  .guarded (ctx.realRefusal? count .forward) (fun cause => [.forwardRealRejected count cause])
    out <|
  .guarded (lengthRefusal? input.size count out.size (count / 2 + 1)) (fun _ => []) out <|
  .accepted (Cells.fill out (count / 2 + 1)
    (realBins (unitTable ctx.maxCount ctx.tableSense) ctx.tableSense count.log2 (numbers input)))

def synthesisReply (ctx : Context α) (count : Nat) (input : Array (Cplx α)) (ws : Workspace α) :
    Reply (Workspace α) :=
  let table : Array (Cplx α) := unitTable ctx.maxCount ctx.tableSense
  .guarded (lengthRefusal? input.size (count / 2 + 1) ws.output.size count) (fun _ => []) ws <|
  .guarded (scratchRefusal? ws.scratch.size (count / 2 + 1)) (fun _ => []) ws <|
  .accepted ⟨Cells.fill ws.output count (realSums table ctx.tableSense count.log2 (points input)),
    workBins table ctx.tableSense count.log2 (points input) ws.scratch⟩

def inverseReply (ctx : Context α) (count : Nat) (input : Array (Cplx α)) (ws : Workspace α) :
    Reply (Workspace α) :=
  .guarded (ctx.realRefusal? count .inverse) (fun cause => [.inverseRealRejected count cause]) ws <|
  ctx.synthesisReply count input ws

section Sizes

variable {ctx : Context α} {j : Nat} {sense : Sense} {input out scratch : Array (Cplx α)}
  {samples output : Array α}

theorem complexReply_of_sizes (hr : ctx.refusal? (2 ^ j) sense = none) (hin : 2 ^ j ≤ input.size)
    (hout : 2 ^ j ≤ out.size) : ctx.complexReply sense (2 ^ j) input out =
      .accepted (Cells.fill out (2 ^ j)
        (cascade sense (ctx.roots sense (2 ^ j)) j 1 (points input))) := by
  simp only [complexReply, hr, lengthRefusal?_eq_none_iff.2 ⟨hin, hout⟩,
    Reply.guarded_none, Nat.log2_two_pow]

theorem forwardReply_of_sizes (hr : ctx.realRefusal? (2 ^ j) .forward = none)
    (hin : 2 ^ j ≤ samples.size) (hout : 2 ^ j / 2 + 1 ≤ out.size) :
    ctx.forwardReply (2 ^ j) samples out = .accepted (Cells.fill out (2 ^ j / 2 + 1)
      (realBins (unitTable ctx.maxCount ctx.tableSense) ctx.tableSense j (numbers samples))) := by
  simp only [forwardReply, hr, lengthRefusal?_eq_none_iff.2 ⟨hin, hout⟩,
    Reply.guarded_none, Nat.log2_two_pow]

theorem inverseReply_of_sizes (hr : ctx.realRefusal? (2 ^ j) .inverse = none)
    (hin : 2 ^ j / 2 + 1 ≤ input.size) (hout : 2 ^ j ≤ output.size)
    (hscratch : 2 ^ j / 2 + 1 ≤ scratch.size) :
    ctx.inverseReply (2 ^ j) input ⟨output, scratch⟩ = .accepted
      ⟨Cells.fill output (2 ^ j)
          (realSums (unitTable ctx.maxCount ctx.tableSense) ctx.tableSense j (points input)),
        workBins (unitTable ctx.maxCount ctx.tableSense) ctx.tableSense j (points input)
          scratch⟩ := by
  simp only [inverseReply, synthesisReply, hr, lengthRefusal?_eq_none_iff.2 ⟨hin, hout⟩,
    scratchRefusal?_eq_none_iff.2 hscratch, Reply.guarded_none, Nat.log2_two_pow]

end Sizes

section Acceptance

variable {ctx : Context α} {count : Nat}

theorem isAccepted_complexReply {sense : Sense} {input out : Array (Cplx α)} :
    (ctx.complexReply sense count input out).isAccepted = true ↔
      ctx.refusal? count sense = none ∧ count ≤ input.size ∧ count ≤ out.size := by
  simp only [complexReply, Reply.isAccepted_guarded, lengthRefusal?_eq_none_iff,
    Reply.isAccepted_accepted, and_true]

theorem isAccepted_forwardReply {input : Array α} {out : Array (Cplx α)} :
    (ctx.forwardReply count input out).isAccepted = true ↔
      ctx.realRefusal? count .forward = none ∧ count ≤ input.size ∧ count / 2 + 1 ≤ out.size := by
  simp only [forwardReply, Reply.isAccepted_guarded, lengthRefusal?_eq_none_iff,
    Reply.isAccepted_accepted, and_true]

theorem isAccepted_inverseReply {input : Array (Cplx α)} {ws : Workspace α} :
    (ctx.inverseReply count input ws).isAccepted = true ↔
      ctx.realRefusal? count .inverse = none ∧
        (count / 2 + 1 ≤ input.size ∧ count ≤ ws.output.size) ∧
        count / 2 + 1 ≤ ws.scratch.size := by
  simp only [inverseReply, synthesisReply, Reply.isAccepted_guarded, lengthRefusal?_eq_none_iff,
    scratchRefusal?_eq_none_iff, Reply.isAccepted_accepted, and_true]

theorem atomic_complexReply {sense : Sense} {input out : Array (Cplx α)} :
    (ctx.complexReply sense count input out).Atomic out :=
  (Reply.atomic_accepted _ _).guarded.guarded

theorem atomic_forwardReply {input : Array α} {out : Array (Cplx α)} :
    (ctx.forwardReply count input out).Atomic out :=
  (Reply.atomic_accepted _ _).guarded.guarded

theorem atomic_inverseReply {input : Array (Cplx α)} {ws : Workspace α} :
    (ctx.inverseReply count input ws).Atomic ws :=
  (Reply.atomic_accepted _ _).guarded.guarded.guarded

end Acceptance

theorem scratch_inverseReply (ctx : Context α) (count : Nat) (input : Array (Cplx α))
    (ws : Workspace α) :
    (ctx.inverseReply count input ws).after.scratch.size = ws.scratch.size := by
  cases ha : (ctx.inverseReply count input ws).isAccepted with
  | false => rw [atomic_inverseReply ha]
  | true =>
      obtain ⟨hr, ⟨hin, hout⟩, hscratch⟩ := isAccepted_inverseReply.1 ha
      obtain ⟨j, rfl⟩ := exists_eq_two_pow (realRefusal?_eq_none_iff.1 hr).2
      rw [inverseReply_of_sizes hr hin hout hscratch]
      exact size_workBins _ _ _

namespace Sound

variable {ctx : Context α} {sense : Sense} {count j : Nat}

theorem maxCount_eq (h : ctx.Sound) (hr : ctx.refusal? (2 ^ j) sense = none) :
    ∃ e, ctx.maxCount = 2 ^ j * 2 ^ e ∧ Word.Fits (2 ^ j * 2 ^ e) := by
  obtain ⟨_, hle, _⟩ := refusal?_eq_none_iff.1 hr
  obtain ⟨hp, hf, _⟩ := Config.layout_eq_ok_iff.1 h.layout_eq
  obtain ⟨m, hm⟩ := Word.isPowerOfTwo_iff.1 hp
  change ctx.maxCount = 2 ^ m at hm
  have hjm : j ≤ m := (Nat.pow_le_pow_iff_right Nat.one_lt_two).1 (hm ▸ hle)
  have hmul : 2 ^ j * 2 ^ (m - j) = 2 ^ m := by rw [← Nat.pow_add, Nat.add_sub_cancel' hjm]
  refine ⟨m - j, hm.trans hmul.symm, ?_⟩
  rw [hmul, ← hm]
  exact hf.mono (Nat.le_trans (Nat.le_add_right _ _) (Nat.le_mul_of_pos_right _ (by decide)))

theorem divides (h : ctx.Sound) (hr : ctx.refusal? (2 ^ j) sense = none) :
    Divides (2 ^ j) (unitTable ctx.maxCount ctx.tableSense : Array (Cplx α)) := by
  obtain ⟨e, he, hf⟩ := h.maxCount_eq hr
  constructor
  · rw [size_unitTable, he]
    exact hf
  · rw [size_unitTable, he]
    exact Nat.mul_pos (Nat.two_pow_pos j) (Nat.two_pow_pos e)
  · rw [size_unitTable, he]
    exact Nat.dvd_mul_right _ _

theorem roots_eq (h : ctx.Sound) (hr : ctx.refusal? (2 ^ j) sense = none) {k : Nat}
    (hk : k < 2 ^ j) : ctx.roots sense (2 ^ j) k =
      sense.orient (UnitRoots.root (k * (ctx.maxCount / 2 ^ j)) ctx.maxCount) := by
  rw [roots, Twiddles.root_unitTable (h.divides hr) sense hk]
  exact Direction.orient_stored (refusal?_eq_none_iff.1 hr).2.2 _

theorem scratch_serves (h : ctx.Sound) (hr : ctx.realRefusal? count .inverse = none) :
    ∃ scratch, ctx.scratch = .ok scratch ∧ count / 2 + 1 ≤ scratch.size := by
  obtain ⟨hreal, hr'⟩ := realRefusal?_eq_none_iff.1 hr
  obtain ⟨_, hle, hs⟩ := refusal?_eq_none_iff.1 hr'
  obtain ⟨_, _, hlayout⟩ := Config.layout_eq_ok_iff.1 h.layout_eq
  obtain ⟨scratch, hscratch, hsize⟩ := h.scratch_eq
  refine ⟨scratch, hscratch, ?_⟩
  have hhalf : count / 2 ≤ ctx.config.maxCount / 2 := Nat.div_le_div_right hle
  rw [hsize, hlayout, Config.scratchLen, hreal, hs]
  exact Nat.succ_le_succ hhalf

theorem transformComplex_eq (h : ctx.Sound) (sense : Sense) (count : Nat)
    (input out : Array (Cplx α)) :
    ctx.transformComplex sense count input out = .ok (ctx.complexReply sense count input out) := by
  rw [transformComplex, complexReply]
  refine Reply.ok_guarded fun hr => Reply.ok_guarded_length fun hin hout => ?_
  obtain ⟨j, rfl⟩ := exists_eq_two_pow hr
  have hd := h.divides hr
  have hslice : Cells.slice out 0 (2 ^ j) = .ok (Cells.tabulate (2 ^ j) (points out)) :=
    Cells.slice_front Cplx.zero hout
  have ht := transform_view ctx.kernel hd ctx.tableSense sense (x := points input)
    (fun t ht => getElem?_eq_points (by omega)) (Cells.size_tabulate (2 ^ j) (points out))
  simp only [h.table_eq, ok_bind, Twiddles.ofTable_eq_view hd, hslice, ht,
    Cells.splice_tabulate hout, Nat.log2_two_pow]
  rfl

theorem forwardReal_eq (h : ctx.Sound) (count : Nat) (input : Array α) (out : Array (Cplx α)) :
    ctx.forwardReal count input out = .ok (ctx.forwardReply count input out) := by
  rw [forwardReal, forwardReply]
  refine Reply.ok_guarded fun hr => Reply.ok_guarded_length fun hin hout => ?_
  have hr' := (realRefusal?_eq_none_iff.1 hr).2
  obtain ⟨j, rfl⟩ := exists_eq_two_pow hr'
  rw [h.table_eq, ok_bind, spectrum_eq ctx.kernel (h.divides hr') ctx.tableSense hin hout,
    Nat.log2_two_pow]
  rfl

theorem synthesize_eq (h : ctx.Sound) (hr : ctx.realRefusal? count .inverse = none)
    (input : Array (Cplx α)) (ws : Workspace α) :
    ctx.synthesize count input ws = .ok (ctx.synthesisReply count input ws) := by
  have hr' := (realRefusal?_eq_none_iff.1 hr).2
  obtain ⟨j, rfl⟩ := exists_eq_two_pow hr'
  rw [synthesize, synthesisReply]
  refine Reply.ok_guarded_length fun hin hout => Reply.ok_guarded_scratch fun hscratch => ?_
  rw [h.table_eq, ok_bind, synthesis_eq ctx.kernel (h.divides hr') ctx.tableSense hin hout hscratch,
    Nat.log2_two_pow]
  rfl

theorem inverseRealWith_eq (h : ctx.Sound) (count : Nat) (input : Array (Cplx α))
    (ws : Workspace α) :
    ctx.inverseRealWith count input ws = .ok (ctx.inverseReply count input ws) := by
  rw [inverseRealWith, inverseReply]
  exact Reply.ok_guarded fun hr => h.synthesize_eq hr input ws

theorem inverseReal_rows (h : ctx.Sound) {scratch : Array (Cplx α)}
    (hs : ctx.scratch = .ok scratch) (count : Nat) (input : Array (Cplx α)) (output : Array α) :
    ctx.inverseReal count input output =
      .ok ((ctx.inverseReply count input ⟨output, scratch⟩).map fun ws =>
        (ctx.withRows ws.scratch, ws.output)) := by
  have hsize := (ctx.scratch_inverseReply count input ⟨output, scratch⟩).trans
    (h.size_scratch hs)
  rw [inverseReal, inverseReply, Reply.map_guarded]
  simp only [h.withRows_self hs]
  refine Reply.ok_guarded fun hr => ?_
  rw [inverseReply, hr, Reply.guarded_none] at hsize
  simp only [hs, ok_bind, h.synthesize_eq hr, h.withScratch_rows hsize]
  rfl

theorem inverseReal_eq (h : ctx.Sound) {scratch : Array (Cplx α)}
    (hs : ctx.scratch = .ok scratch) (count : Nat) (input : Array (Cplx α)) (output : Array α) :
    ∃ after, ctx.inverseReal count input output =
        .ok ((ctx.inverseReply count input ⟨output, scratch⟩).map fun ws => (after, ws.output)) ∧
      after.Sound ∧ after.config = ctx.config ∧
      after.scratch = .ok (ctx.inverseReply count input ⟨output, scratch⟩).after.scratch := by
  have hsize := (ctx.scratch_inverseReply count input ⟨output, scratch⟩).trans (h.size_scratch hs)
  exact ⟨_, h.inverseReal_rows hs count input output, h.sound_withRows hsize, rfl,
    h.scratch_withRows hsize⟩

theorem inverseReal_samples (h : ctx.Sound) (hr : ctx.realRefusal? (2 ^ j) .inverse = none)
    {input : Array (Cplx α)} {output : Array α} (hin : 2 ^ j / 2 + 1 ≤ input.size)
    (hout : 2 ^ j ≤ output.size) :
    ∃ after, ctx.inverseReal (2 ^ j) input output = .ok (.accepted after) ∧
      after.2 = Cells.fill output (2 ^ j)
        (realSums (unitTable ctx.maxCount ctx.tableSense) ctx.tableSense j (points input)) := by
  obtain ⟨scratch, hscratch, hlen⟩ := h.scratch_serves hr
  obtain ⟨after, hafter, -⟩ := h.inverseReal_eq hscratch (2 ^ j) input output
  rw [inverseReply_of_sizes hr hin hout hlen] at hafter
  exact ⟨_, hafter, rfl⟩

end Sound

theorem Reachable.sound {ctx : Context α} (h : ctx.Reachable) : ctx.Sound := by
  induction h with
  | new h hc =>
      obtain ⟨layout, hl, _, rfl⟩ := new_inv h hc
      exact sound_built hl (by simp [Storage.fresh, Storage.cells])
  | newIn h hc =>
      obtain ⟨layout, hl, hle, rfl⟩ := newIn_inv h hc
      exact sound_built hl (by simp [Storage.borrow, Storage.cells, hle])
  | @inverseReal ctx count input output reply _ hcall ih =>
      obtain ⟨scratch, hs, _⟩ := ih.scratch_eq
      obtain ⟨after, ha, hsound, _⟩ := ih.inverseReal_eq hs count input output
      rw [hcall] at ha
      cases ha
      exact hsound

end DyadicFourier.Context
