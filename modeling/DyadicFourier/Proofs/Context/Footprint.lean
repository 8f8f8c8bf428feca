import DyadicFourier.Proofs.Context.Effects
import DyadicFourier.Proofs.Spectrum.Agreement

namespace DyadicFourier

open Cells (Overwrites)

variable {α β : Type}

def Ensures (call : Checked (Reply β)) (post : β → Prop) : Prop :=
  ∃ reply, call = .ok reply ∧ (reply.isAccepted = true → post reply.after)

def preparedRows (count : Nat) : Nat := if 2 ≤ count then count / 2 + 1 else 0

theorem preparedRows_succ (j : Nat) : preparedRows (2 ^ (j + 1)) = 2 ^ j + 1 := by
  have hpos := Nat.two_pow_pos j
  have hdouble : 2 ^ (j + 1) = 2 * 2 ^ j := Nat.pow_succ'
  rw [preparedRows, if_pos (by omega), two_pow_succ_div_two]

variable [Scalar α] [UnitRoots α]

namespace Config

def table (config : Config) : Array (Cplx α) :=
  unitTable config.maxCount config.direction.tableSense

def sums (config : Config) (sense : Sense) (count : Nat) (x : Nat → Cplx α) : Nat → Cplx α :=
  let tw := Twiddles.view config.table count config.direction.tableSense sense
  cascade sense tw.root count.log2 1 x

def bins (config : Config) (count : Nat) (x : Nat → α) : Nat → Cplx α :=
  realBins config.table config.direction.tableSense count.log2 x

def samples (config : Config) (count : Nat) (x : Nat → Cplx α) : Nat → α :=
  realSums config.table config.direction.tableSense count.log2 x

def rows (config : Config) (count : Nat) (x : Nat → Cplx α) : Nat → Cplx α :=
  reunitedBins config.table config.direction.tableSense (count.log2 - 1) x

end Config

namespace Context

variable {ctx : Context α} {count : Nat} {sense : Sense}

theorem overwrites_complexReply {input out : Array (Cplx α)}
    (ha : (ctx.complexReply sense count input out).isAccepted = true) :
    Overwrites count (ctx.config.sums sense count (points (input.extract 0 count))) out
      (ctx.complexReply sense count input out).after := by
  obtain ⟨hr, hin, hout⟩ := isAccepted_complexReply.1 ha
  obtain ⟨j, rfl⟩ := exists_eq_two_pow hr
  have hsame : ctx.config.sums sense (2 ^ j) (points (input.extract 0 (2 ^ j))) =
      cascade sense (ctx.roots sense (2 ^ j)) j 1 (points input) := by
    funext k
    rw [Config.sums, Nat.log2_two_pow]
    exact cascade_congr (fun t ht => points_extract ht) k
  rw [complexReply_of_sizes hr hin hout, hsame]
  exact Cells.overwrites_fill hout

theorem overwrites_forwardReply {input : Array α} {out : Array (Cplx α)}
    (ha : (ctx.forwardReply count input out).isAccepted = true) :
    Overwrites (count / 2 + 1) (ctx.config.bins count (numbers (input.extract 0 count))) out
      (ctx.forwardReply count input out).after := by
  obtain ⟨hr, hin, hout⟩ := isAccepted_forwardReply.1 ha
  obtain ⟨j, rfl⟩ := exists_eq_two_pow (realRefusal?_eq_none_iff.1 hr).2
  rw [forwardReply_of_sizes hr hin hout, Config.bins, Nat.log2_two_pow,
    realBins_congr fun i hi => numbers_extract hi]
  exact Cells.overwrites_fill hout

theorem overwrites_inverseReply {input : Array (Cplx α)} {ws : Workspace α}
    (ha : (ctx.inverseReply count input ws).isAccepted = true) :
    Overwrites count (ctx.config.samples count (points (input.extract 0 (count / 2 + 1))))
        ws.output (ctx.inverseReply count input ws).after.output ∧
      Overwrites (preparedRows count)
        (ctx.config.rows count (points (input.extract 0 (count / 2 + 1))))
        ws.scratch (ctx.inverseReply count input ws).after.scratch := by
  obtain ⟨hr, ⟨hin, hout⟩, hscratch⟩ := isAccepted_inverseReply.1 ha
  obtain ⟨j, rfl⟩ := exists_eq_two_pow (realRefusal?_eq_none_iff.1 hr).2
  have hfront (k : Nat) (hk : k ≤ 2 ^ j / 2) :
      points (input.extract 0 (2 ^ j / 2 + 1)) k = points input k :=
    points_extract (Nat.lt_succ_of_le hk)
  rw [inverseReply_of_sizes hr hin hout hscratch]
  constructor
  · rw [Config.samples, Nat.log2_two_pow, realSums_congr hfront]
    exact Cells.overwrites_fill hout
  · cases j with
    | zero => exact Cells.overwrites_zero _ _
    | succ j =>
        rw [two_pow_succ_div_two] at hscratch
        rw [two_pow_succ_div_two] at hfront ⊢
        rw [preparedRows_succ, Config.rows, Nat.log2_two_pow, Nat.add_sub_cancel,
          reunitedBins_congr hfront]
        exact Cells.overwrites_fill hscratch

theorem footprints_exact (config : Config) :
    ∃ (sums : Sense → Nat → Array (Cplx α) → Nat → Cplx α)
      (bins : Nat → Array α → Nat → Cplx α) (samples : Nat → Array (Cplx α) → Nat → α)
      (rows : Nat → Array (Cplx α) → Nat → Cplx α),
      ∀ ctx : Context α, ctx.Reachable → ctx.config = config → ∀ count,
        (∀ input out, Ensures (ctx.forwardComplex count input out)
          (Overwrites count (sums .forward count (input.extract 0 count)) out)) ∧
        (∀ input out, Ensures (ctx.inverseComplex count input out)
          (Overwrites count (sums .inverse count (input.extract 0 count)) out)) ∧
        (∀ sense input out, Ensures (ctx.process sense input out)
          (Overwrites config.maxCount
            (sums sense config.maxCount (input.extract 0 config.maxCount)) out)) ∧
        (∀ input out, Ensures (ctx.forwardReal count input out)
          (Overwrites (count / 2 + 1) (bins count (input.extract 0 count)) out)) ∧
        (∀ input ws, Ensures (ctx.inverseRealWith count input ws) fun after =>
          Overwrites count (samples count (input.extract 0 (count / 2 + 1)))
            ws.output after.output ∧
          Overwrites (preparedRows count) (rows count (input.extract 0 (count / 2 + 1)))
            ws.scratch after.scratch) ∧
        ∀ input output, Ensures (ctx.inverseReal count input output) fun after =>
          Overwrites count (samples count (input.extract 0 (count / 2 + 1))) output after.2 ∧
          ∃ scratch scratch', ctx.scratch = .ok scratch ∧
            Overwrites (preparedRows count) (rows count (input.extract 0 (count / 2 + 1)))
              scratch scratch' ∧
            ctx.withScratch scratch' = .ok after.1 := by
  refine ⟨fun sense count front => config.sums sense count (points front),
    fun count front => config.bins count (numbers front),
    fun count front => config.samples count (points front),
    fun count front => config.rows count (points front), ?_⟩
  rintro ctx h rfl count
  refine ⟨fun input out => ?_, fun input out => ?_, fun sense input out => ?_,
    fun input out => ?_, fun input ws => ?_, fun input output => ?_⟩
  · exact ⟨_, h.sound.transformComplex_eq .forward count input out, overwrites_complexReply⟩
  · exact ⟨_, h.sound.transformComplex_eq .inverse count input out, overwrites_complexReply⟩
  · exact ⟨_, h.sound.transformComplex_eq sense _ input out, overwrites_complexReply⟩
  · exact ⟨_, h.sound.forwardReal_eq count input out, overwrites_forwardReply⟩
  · exact ⟨_, h.sound.inverseRealWith_eq count input ws, overwrites_inverseReply⟩
  · obtain ⟨scratch, hs, -⟩ := h.sound.scratch_eq
    refine ⟨_, h.sound.inverseReal_rows hs count input output, fun ha => ?_⟩
    obtain ⟨hsamples, hrows⟩ := overwrites_inverseReply ha
    have hsize := hrows.size_eq.trans (h.sound.size_scratch hs)
    exact ⟨hsamples, scratch, _, hs, hrows, h.sound.withScratch_rows hsize⟩

theorem footprints_exact_sixteen :
    let ctx : Context Float32 := built ⟨16, .both, true, true⟩ ⟨16, 9⟩ (.fresh 25)
    let bins : Array (Cplx Float32) := Array.replicate 5 ⟨1, 0⟩
    let longer : Array (Cplx Float32) := bins ++ #[⟨7, 8⟩]
    let ws : Workspace Float32 := ⟨Array.replicate 8 0, Array.replicate 5 ⟨0, 0⟩⟩
    let dirty : Workspace Float32 := ⟨Array.replicate 10 9, Array.replicate 6 ⟨2, 3⟩⟩
    ctx.Reachable ∧ ∃ reply reply', ctx.inverseRealWith 8 bins ws = .ok reply ∧
      ctx.inverseRealWith 8 longer dirty = .ok reply' ∧
      reply.isAccepted = true ∧ reply'.isAccepted = true ∧
      (∀ i < 8, reply'.after.output[i]? = reply.after.output[i]?) ∧
      reply'.after.output[8]? = some 9 ∧
      (∀ k < 5, reply'.after.scratch[k]? = reply.after.scratch[k]?) ∧
      reply'.after.scratch[5]? = some ⟨2, 3⟩ := by
  intro ctx bins longer ws dirty
  have hl : ctx.config.layout = .ok ⟨16, 9⟩ := by decide
  have h : ctx.Reachable := reachable_fresh hl (by decide)
  obtain ⟨_, _, _, _, hcalls⟩ := @footprints_exact Float32 _ _ ⟨16, .both, true, true⟩
  obtain ⟨-, -, -, -, hwith, -⟩ := hcalls ctx h rfl 8
  obtain ⟨reply, hreply, hleft⟩ := hwith bins ws
  obtain ⟨reply', hreply', hright⟩ := hwith longer dirty
  have hfront : longer.extract 0 5 = bins.extract 0 5 := by simp [longer, bins]
  have ha : reply.isAccepted = true := by
    rw [h.sound.inverseRealWith_eq] at hreply
    cases hreply
    exact isAccepted_inverseReply.2 ⟨by decide, by simp [bins, ws],
      by simp [ws]⟩
  have ha' : reply'.isAccepted = true := by
    rw [h.sound.inverseRealWith_eq] at hreply'
    cases hreply'
    exact isAccepted_inverseReply.2 ⟨by decide, by simp [longer, bins, dirty],
      by simp [dirty]⟩
  obtain ⟨hsamples, hrows⟩ := hleft ha
  obtain ⟨hsamples', hrows'⟩ := hright ha'
  rw [hfront] at hsamples' hrows'
  refine ⟨h, reply, reply', hreply, hreply', ha, ha', ?_, ?_, ?_, ?_⟩
  · intro i hi
    rw [hsamples.front i hi, hsamples'.front i hi]
  · rw [hsamples'.rest 8 (Nat.le_refl 8)]
    rfl
  · intro k hk
    rw [hrows.front k hk, hrows'.front k hk]
  · rw [hrows'.rest 5 (Nat.le_refl 5)]
    rfl

end Context

end DyadicFourier
