import DyadicFourier.Proofs.Context.Demands
import DyadicFourier.Proofs.Context.Footprint

namespace DyadicFourier.Context

open Demand (firstUnmet)

variable {α : Type} [Scalar α] [UnitRoots α] {ctx : Context α} {count : Nat}
  {input own lent : Array (Cplx α)} {output : Array α}

theorem Sound.inverseReply_output (h : ctx.Sound) (hown : ctx.scratch = .ok own)
    (hlent : count / 2 + 1 ≤ lent.size) :
    (ctx.inverseReply count input ⟨output, own⟩).map Workspace.output =
      (ctx.inverseReply count input ⟨output, lent⟩).map Workspace.output := by
  apply inverseReply_forgets
  intro hr
  obtain ⟨scratch, hscratch, hserves⟩ := h.scratch_serves hr
  cases hown.symm.trans hscratch
  exact iff_of_true hserves hlent

theorem inverseReply_rows
    (hown : (ctx.inverseReply count input ⟨output, own⟩).isAccepted = true)
    (hlent : (ctx.inverseReply count input ⟨output, lent⟩).isAccepted = true)
    (hcount : 2 ≤ count) {k : Nat} (hk : k ≤ count / 2) :
    ∃ z, (ctx.inverseReply count input ⟨output, own⟩).after.scratch[k]? = some z ∧
      (ctx.inverseReply count input ⟨output, lent⟩).after.scratch[k]? = some z := by
  have hrow : k < preparedRows count := by
    rw [preparedRows, if_pos hcount]
    exact Nat.lt_succ_of_le hk
  exact ⟨_, (overwrites_inverseReply hown).2.front k hrow,
    (overwrites_inverseReply hlent).2.front k hrow⟩

theorem Sound.refusal_inverseReply_lent (h : ctx.Sound) (hown : ctx.scratch = .ok own) :
    (ctx.inverseReply count input ⟨output, lent⟩).refusal =
      (ctx.inverseReply count input ⟨output, own⟩).refusal.or
        (firstUnmet [⟨count / 2 + 1 ≤ lent.size, .bufferTooSmall (count / 2 + 1)⟩]) := by
  rw [refusal_inverseReply, h.refusal_inverseReply_own hown, ← Demand.firstUnmet_append,
    List.append_assoc]
  rfl

theorem Sound.refusal_inverseReply_ne (h : ctx.Sound) (hown : ctx.scratch = .ok own)
    (required : Nat) : (ctx.inverseReply count input ⟨output, own⟩).refusal ≠
      some (.bufferTooSmall required) := by
  rw [h.refusal_inverseReply_own hown]
  exact refusal_inverseReal_ne

theorem Sound.refusal_inverseReply_short (h : ctx.Sound) (hown : ctx.scratch = .ok own)
    (hshort : lent.size < count / 2 + 1) :
    ((ctx.inverseReply count input ⟨output, lent⟩).refusal =
        some (.bufferTooSmall (count / 2 + 1)) ↔
      (ctx.inverseReply count input ⟨output, own⟩).isAccepted = true) ∧
    ((ctx.inverseReply count input ⟨output, own⟩).isAccepted = false →
      (ctx.inverseReply count input ⟨output, lent⟩).refusal =
        (ctx.inverseReply count input ⟨output, own⟩).refusal) := by
  have hne : (ctx.inverseReply count input ⟨output, own⟩).refusal ≠
      some (.bufferTooSmall (count / 2 + 1)) := h.refusal_inverseReply_ne hown _
  rw [h.refusal_inverseReply_lent hown, Demand.firstUnmet_of_not_met (Nat.not_le.2 hshort),
    Bool.eq_false_iff, ne_eq, Reply.isAccepted_iff]
  cases hrefusal : (ctx.inverseReply count input ⟨output, own⟩).refusal with
  | none => exact ⟨iff_of_true (Option.none_or) rfl, fun hrefused => absurd rfl hrefused⟩
  | some cause =>
      rw [hrefusal] at hne
      rw [Option.some_or]
      exact ⟨iff_of_false hne (Option.some_ne_none cause), fun _ => rfl⟩

theorem scratches_agree (h : ctx.Reachable) (count : Nat) (input : Array (Cplx α))
    (output : Array α) (scratch : Array (Cplx α)) :
    ∃ own lent, ctx.inverseReal count input output = .ok own ∧
      ctx.inverseRealWith count input ⟨output, scratch⟩ = .ok lent ∧
      (count / 2 + 1 ≤ scratch.size →
        own.map Prod.snd = lent.map Workspace.output ∧
        (own.isAccepted = true → 2 ≤ count → ∃ rows, own.after.1.scratch = .ok rows ∧
          ∀ k ≤ count / 2, ∃ z, rows[k]? = some z ∧ lent.after.scratch[k]? = some z)) ∧
      (scratch.size < count / 2 + 1 →
        (lent.refusal = some (.bufferTooSmall (count / 2 + 1)) ↔ own.isAccepted = true) ∧
        (own.isAccepted = false → lent.refusal = own.refusal)) := by
  obtain ⟨rows, hrows, -⟩ := h.sound.scratch_eq
  refine ⟨_, _, h.sound.inverseReal_rows hrows count input output,
    h.sound.inverseRealWith_eq count input ⟨output, scratch⟩, fun hserves => ?_, fun hshort => ?_⟩
  · have hsame : (ctx.inverseReply count input ⟨output, rows⟩).map Workspace.output =
        (ctx.inverseReply count input ⟨output, scratch⟩).map Workspace.output :=
      h.sound.inverseReply_output hrows hserves
    refine ⟨hsame, fun ha hcount => ?_⟩
    have ha' : (ctx.inverseReply count input ⟨output, scratch⟩).isAccepted = true :=
      (congrArg Reply.isAccepted hsame).symm.trans ha
    have hsize := (ctx.scratch_inverseReply count input ⟨output, rows⟩).trans
      (h.sound.size_scratch hrows)
    exact ⟨_, h.sound.scratch_withRows hsize, fun k hk => inverseReply_rows ha ha' hcount hk⟩
  · exact h.sound.refusal_inverseReply_short hrows hshort

theorem scratches_agree_sixteen :
    let ctx : Context Float32 := built ⟨16, .both, true, true⟩ ⟨16, 9⟩ (.fresh 25)
    let bins : Array (Cplx Float32) := Array.replicate 5 ⟨1, 0⟩
    let samples : Array Float32 := Array.replicate 8 0
    let long : Array (Cplx Float32) := Array.replicate 6 ⟨2, 3⟩
    let short : Array (Cplx Float32) := Array.replicate 4 ⟨2, 3⟩
    ctx.Reachable ∧ ∃ own lent refused, ctx.inverseReal 8 bins samples = .ok own ∧
      own.isAccepted = true ∧ ctx.inverseRealWith 8 bins ⟨samples, long⟩ = .ok lent ∧
      own.map Prod.snd = lent.map Workspace.output ∧
      ctx.inverseRealWith 8 bins ⟨samples, short⟩ = .ok refused ∧
      refused.refusal = some (.bufferTooSmall 5) := by
  intro ctx bins samples long short
  have hl : ctx.config.layout = .ok ⟨16, 9⟩ := by decide
  have h : ctx.Reachable := reachable_fresh hl (by decide)
  have hbins : 8 / 2 + 1 ≤ bins.size := by simp [bins]
  have hsamples : 8 ≤ samples.size := by simp [samples]
  obtain ⟨after, hafter, -⟩ := h.sound.inverseReal_samples (j := 3) (by decide) hbins hsamples
  obtain ⟨own, lent, hown, hlent, hserves, -⟩ := scratches_agree h 8 bins samples long
  obtain ⟨own', refused, hown', hrefused, -, hshort⟩ := scratches_agree h 8 bins samples short
  cases hown.symm.trans hafter
  cases hown'.symm.trans hafter
  have hlong : 8 / 2 + 1 ≤ long.size := by simp [long]
  have hlt : short.size < 8 / 2 + 1 := by simp [short]
  exact ⟨h, _, lent, refused, hafter, rfl, hlent, (hserves hlong).1, hrefused,
    (hshort hlt).1.2 rfl⟩

end DyadicFourier.Context
