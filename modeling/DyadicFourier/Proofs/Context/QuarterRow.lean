import DyadicFourier.Proofs.Context.Footprint
import DyadicFourier.Proofs.Exact.Dft
import DyadicFourier.Proofs.Spectrum.QuarterRow

namespace DyadicFourier

def SpectrumAlike {α : Type} [Scalar α] (kernel : Kernel) (table : Array (Cplx α)) (stored : Sense)
    (count : Nat) (samples : Array α) (out after : Array (Cplx α)) : Prop :=
  SeparatesAlike kernel table stored count samples out after ∧
    ∀ kept, spectrumBy (separateOnce kept) kernel table stored count samples out = .ok after

def SynthesisAlike {α : Type} [Scalar α] (kernel : Kernel) (table : Array (Cplx α))
    (stored : Sense) (count : Nat) (input : Array (Cplx α)) (ws after : Workspace α) : Prop :=
  ReunitesAlike table stored count input ws.scratch after.scratch ∧
    ∀ kept, synthesisBy (reuniteOnce kept) kernel table stored count input ws = .ok after

theorem four_dvd_two_pow {j : Nat} (h : 4 ≤ 2 ^ j) : 4 ∣ 2 ^ j :=
  Nat.pow_dvd_pow 2 ((Nat.pow_le_pow_iff_right Nat.one_lt_two).1 h : 2 ≤ j)

namespace Context

variable {R : Type} [CommRing R] [UnitRoots R] {ctx : Context R} {j : Nat}

namespace Sound

theorem spectrumAlike (h : ctx.Sound) (hcount : 4 ≤ 2 ^ j) {samples : Array R}
    {out : Array (Cplx R)} (ha : (ctx.forwardReply (2 ^ j) samples out).isAccepted = true) :
    SpectrumAlike ctx.kernel (unitTable ctx.maxCount ctx.tableSense) ctx.tableSense (2 ^ j) samples
      out (ctx.forwardReply (2 ^ j) samples out).after := by
  obtain ⟨hr, hin, hout⟩ := isAccepted_forwardReply.1 ha
  have hd := h.divides (realRefusal?_eq_none_iff.1 hr).2
  have hrun := spectrum_eq ctx.kernel hd ctx.tableSense hin hout
  have hdvd := four_dvd_two_pow hcount
  rw [forwardReply_of_sizes hr hin hout]
  exact ⟨separatesAlike_of_spectrum hdvd hrun,
    fun kept => (spectrumBy_separateOnce kept hdvd).trans hrun⟩

theorem synthesisAlike (h : ctx.Sound) (hcount : 4 ≤ 2 ^ j) {input : Array (Cplx R)}
    {ws : Workspace R} (ha : (ctx.inverseReply (2 ^ j) input ws).isAccepted = true) :
    SynthesisAlike ctx.kernel (unitTable ctx.maxCount ctx.tableSense) ctx.tableSense (2 ^ j) input
      ws (ctx.inverseReply (2 ^ j) input ws).after := by
  obtain ⟨hr, ⟨hin, hout⟩, hscratch⟩ := isAccepted_inverseReply.1 ha
  have hd := h.divides (realRefusal?_eq_none_iff.1 hr).2
  have hrun := synthesis_eq ctx.kernel hd ctx.tableSense hin hout hscratch
  have hdvd := four_dvd_two_pow hcount
  rw [inverseReply_of_sizes hr hin hout hscratch]
  exact ⟨reunitesAlike_of_synthesis hdvd hrun,
    fun kept => (synthesisBy_reuniteOnce kept hdvd).trans hrun⟩

end Sound

theorem quarter_row_written_alike (hcount : 4 ≤ 2 ^ j) :
    (∀ kernel (table : Array (Cplx R)) stored samples out,
      (∀ kept, spectrumBy (separateOnce kept) kernel table stored (2 ^ j) samples out =
        spectrum kernel table stored (2 ^ j) samples out) ∧
      ∀ after, spectrum kernel table stored (2 ^ j) samples out = .ok after →
        SeparatesAlike kernel table stored (2 ^ j) samples out after) ∧
    (∀ kernel (table : Array (Cplx R)) stored input ws,
      (∀ kept, synthesisBy (reuniteOnce kept) kernel table stored (2 ^ j) input ws =
        synthesis kernel table stored (2 ^ j) input ws) ∧
      ∀ after, synthesis kernel table stored (2 ^ j) input ws = .ok after →
        ReunitesAlike table stored (2 ^ j) input ws.scratch after.scratch) ∧
    ∀ ctx : Context R, ctx.Reachable → ∃ table, ctx.table = .ok table ∧
      (∀ samples out, Ensures (ctx.forwardReal (2 ^ j) samples out)
        (SpectrumAlike ctx.kernel table ctx.tableSense (2 ^ j) samples out)) ∧
      (∀ input ws, Ensures (ctx.inverseRealWith (2 ^ j) input ws)
        (SynthesisAlike ctx.kernel table ctx.tableSense (2 ^ j) input ws)) ∧
      ∀ input output, Ensures (ctx.inverseReal (2 ^ j) input output) fun after =>
        ∃ scratch scratch', ctx.scratch = .ok scratch ∧
          SynthesisAlike ctx.kernel table ctx.tableSense (2 ^ j) input ⟨output, scratch⟩
            ⟨after.2, scratch'⟩ ∧
          ctx.withScratch scratch' = .ok after.1 := by
  have hdvd := four_dvd_two_pow hcount
  refine ⟨fun kernel table stored samples out => ?_, fun kernel table stored input ws => ?_,
    fun ctx h => ?_⟩
  · exact ⟨fun kept => spectrumBy_separateOnce kept hdvd,
      fun after hrun => separatesAlike_of_spectrum hdvd hrun⟩
  · exact ⟨fun kept => synthesisBy_reuniteOnce kept hdvd,
      fun after hrun => reunitesAlike_of_synthesis hdvd hrun⟩
  · refine ⟨_, h.sound.table_eq, fun samples out => ?_, fun input ws => ?_,
      fun input output => ?_⟩
    · exact ⟨_, h.sound.forwardReal_eq _ samples out, h.sound.spectrumAlike hcount⟩
    · exact ⟨_, h.sound.inverseRealWith_eq _ input ws, h.sound.synthesisAlike hcount⟩
    · obtain ⟨scratch, hs, -⟩ := h.sound.scratch_eq
      refine ⟨_, h.sound.inverseReal_rows hs _ input output, fun ha => ?_⟩
      have hsize := (ctx.scratch_inverseReply (2 ^ j) input ⟨output, scratch⟩).trans
        (h.sound.size_scratch hs)
      exact ⟨scratch, _, hs, h.sound.synthesisAlike hcount ha, h.sound.withScratch_rows hsize⟩

theorem quarter_row_written_alike_sixteen :
    let ctx : Context ℝ := built ⟨16, .both, true, true⟩ ⟨16, 9⟩ (.fresh 25)
    let samples : Array ℝ := Array.replicate 8 1
    let bins : Array (Cplx ℝ) := Array.replicate 5 ⟨2, 3⟩
    4 ≤ 2 ^ 3 ∧ ctx.Reachable ∧ ∃ table, ctx.table = .ok table ∧
      (∃ reply, ctx.forwardReal 8 samples bins = .ok reply ∧ reply.isAccepted = true ∧
        SpectrumAlike ctx.kernel table ctx.tableSense 8 samples bins reply.after) ∧
      ∃ reply, ctx.inverseRealWith 8 bins ⟨samples, bins⟩ = .ok reply ∧
        reply.isAccepted = true ∧
        SynthesisAlike ctx.kernel table ctx.tableSense 8 bins ⟨samples, bins⟩ reply.after := by
  intro ctx samples bins
  have hl : ctx.config.layout = .ok ⟨16, 9⟩ := by decide
  have h : ctx.Reachable := reachable_fresh hl (by decide)
  have hsamples : 8 ≤ samples.size := by simp [samples]
  have hbins : 8 / 2 + 1 ≤ bins.size := by simp [bins]
  obtain ⟨-, -, hcalls⟩ := quarter_row_written_alike (R := ℝ) (j := 3) (by decide)
  obtain ⟨table, htable, hforward, hinverse, -⟩ := hcalls ctx h
  obtain ⟨reply, hreply, halike⟩ := hforward samples bins
  obtain ⟨reply', hreply', halike'⟩ := hinverse bins ⟨samples, bins⟩
  have ha : reply.isAccepted = true := by
    rw [h.sound.forwardReal_eq] at hreply
    cases hreply
    exact isAccepted_forwardReply.2 ⟨by decide, hsamples, hbins⟩
  have ha' : reply'.isAccepted = true := by
    rw [h.sound.inverseRealWith_eq] at hreply'
    cases hreply'
    exact isAccepted_inverseReply.2 ⟨by decide, ⟨hbins, hsamples⟩, hbins⟩
  exact ⟨by decide, h, table, htable, ⟨reply, hreply, ha, halike ha⟩, reply', hreply', ha',
    halike' ha'⟩

end Context

end DyadicFourier
