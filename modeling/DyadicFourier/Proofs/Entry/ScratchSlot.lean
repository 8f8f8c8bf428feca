import DyadicFourier.Proofs.Context.Scratch
import DyadicFourier.Proofs.Entry.Refinement

namespace DyadicFourier.Entry

variable {α : Type} {ctx : Context α} {count : Int32} {k : Nat} {input : Array (Cplx α)}
  {output : Array α}

theorem scratchBytes_of_toInt (h : count.toInt = 2 ^ k) :
    scratchBytes count = 8 * (2 ^ k / 2 + 1) := by
  rw [scratchBytes, word_of_toInt h, Context.inverseRealScratchLen, pointBytes, Nat.mul_comm]

theorem scratchBytes_le_iff {scratch : Array (Cplx α)} : scratchBytes count ≤ 8 * scratch.size ↔
    Context.inverseRealScratchLen (word count) ≤ scratch.size := by
  rw [scratchBytes, pointBytes]
  omega

/-- An inverse call to real samples that can lack nothing but its scratch. -/
structure Ready (ctx : Context α) (count : Int32) (k : Nat) (input : Array (Cplx α))
    (output : Array α) : Prop where
  count_eq : count.toInt = 2 ^ k
  real_eq : ctx.config.real = true
  supports_eq : ctx.config.direction.supports .inverse = true
  count_le : 2 ^ k ≤ ctx.maxCount
  input_le : 2 ^ k / 2 + 1 ≤ input.size
  output_le : 2 ^ k ≤ output.size

structure Outcome.RunsAs (lent own : Outcome (InverseArgs α)) (ctx : Context α)
    (available : Nat) : Prop where
  accepted_eq : lent.accepted = true
  context_eq : lent.after.context = some ctx
  output_eq : lent.after.output = own.after.output
  slot_eq : lent.after.slot = some available

namespace Ready

theorem isPowerOfTwo_count (h : Ready ctx count k input output) : isPowerOfTwo count = true :=
  isPowerOfTwo_of_toInt h.count_eq

theorem realRefusal?_eq_none (h : Ready ctx count k input output) :
    ctx.realRefusal? (word count) .inverse = none := by
  rw [word_of_toInt h.count_eq]
  exact Context.realRefusal?_eq_none_iff.2
    ⟨h.real_eq, Context.refusal?_two_pow h.count_le h.supports_eq⟩

variable [Scalar α] [UnitRoots α] {scratch : Array (Cplx α)}

theorem isAccepted_iff (h : Ready ctx count k input output) :
    (ctx.inverseReply (word count) input ⟨output, scratch⟩).isAccepted = true ↔
      scratchBytes count ≤ 8 * scratch.size := by
  have hsizes : word count / 2 + 1 ≤ input.size ∧ word count ≤ output.size := by
    rw [word_of_toInt h.count_eq]
    exact ⟨h.input_le, h.output_le⟩
  rw [Context.isAccepted_inverseReply, scratchBytes_le_iff]
  exact ⟨fun ha => ha.2.2, fun hlen => ⟨h.realRefusal?_eq_none, hsizes, hlen⟩⟩

theorem runs_own (h : Ready ctx count k input output) (hctx : ctx.Reachable) :
    ∃ own, inverseReal count input ⟨some ctx, output, none, none⟩ = .ok own ∧
      own.accepted = true ∧
      ∀ (scratch : Array (Cplx α)) (available : Nat), scratchBytes count ≤ 8 * scratch.size →
        scratchBytes count ≤ available →
        ∃ lent, inverseReal count input ⟨some ctx, output, some scratch, some available⟩ =
          .ok lent ∧ lent.RunsAs own ctx available := by
  obtain ⟨rows, hrows, hserves⟩ := hctx.sound.scratch_serves h.realRefusal?_eq_none
  have hown := inverseReal_ownReply h.isPowerOfTwo_count hctx.sound hrows input output
  refine ⟨_, hown, h.isAccepted_iff.2 (scratchBytes_le_iff.2 hserves), ?_⟩
  intro scratch available hcells hbytes
  -- a scratch that is long enough has no part in the samples, whosever it is
  have hsame : (ctx.inverseReply (word count) input ⟨output, rows⟩).map Workspace.output =
      (ctx.inverseReply (word count) input ⟨output, scratch⟩).map Workspace.output :=
    hctx.sound.inverseReply_output hrows (scratchBytes_le_iff.1 hcells)
  exact ⟨_, inverseReal_lentReply h.isPowerOfTwo_count hctx.sound hbytes input output scratch,
    h.isAccepted_iff.2 hcells, rfl, (congrArg Reply.after hsame).symm, rfl⟩

theorem answers_lent (h : Ready ctx count k input output) (hctx : ctx.Reachable) {available : Nat}
    (hbytes : scratchBytes count ≤ available) (scratch : Array (Cplx α)) :
    ∃ o, inverseReal count input ⟨some ctx, output, some scratch, some available⟩ = .ok o ∧
      (o.accepted = true ↔ scratchBytes count ≤ 8 * scratch.size) ∧
      (o.accepted = false → o.after = ⟨some ctx, output, some scratch, some available⟩) := by
  have hlent := inverseReal_lentReply h.isPowerOfTwo_count hctx.sound hbytes input output scratch
  refine ⟨_, hlent, h.isAccepted_iff, fun hrefused => ?_⟩
  simp only [Outcome.ofReply, Reply.map, Context.atomic_inverseReply hrefused]

end Ready

section Protocol

variable [Scalar α] [UnitRoots α]

theorem scratch_protocol (hctx : ctx.Reachable) (h : Ready ctx count k input output) :
    let bytes := 8 * (2 ^ k / 2 + 1)
    (∀ available, inverseReal count input ⟨some ctx, output, none, some available⟩ =
      .ok (.rejected ⟨some ctx, output, none, some bytes⟩)) ∧
    (∀ scratch, (∀ available < bytes,
        inverseReal count input ⟨some ctx, output, some scratch, some available⟩ =
          .ok (.rejected ⟨some ctx, output, some scratch, some bytes⟩)) ∧
      inverseReal count input ⟨some ctx, output, some scratch, none⟩ =
        .ok (.rejected ⟨some ctx, output, some scratch, none⟩)) ∧
    ∃ own, inverseReal count input ⟨some ctx, output, none, none⟩ = .ok own ∧
      own.accepted = true ∧
      (∀ (scratch : Array (Cplx α)) available, bytes ≤ 8 * scratch.size → bytes ≤ available →
        ∃ lent, inverseReal count input ⟨some ctx, output, some scratch, some available⟩ =
          .ok lent ∧ lent.RunsAs own ctx available) ∧
      ∀ available, ∃ query,
        inverseReal count input ⟨some ctx, output, none, some available⟩ = .ok query ∧
        query.after.slot = some bytes ∧
        ∀ (scratch : Array (Cplx α)), scratch.size = bytes / 8 → ∃ lent,
          inverseReal count input { query.after with scratch := some scratch } = .ok lent ∧
          lent.RunsAs own ctx bytes := by
  intro bytes
  have hp := h.isPowerOfTwo_count
  have hb : scratchBytes count = bytes := scratchBytes_of_toInt h.count_eq
  have hquery (available : Nat) :
      inverseReal count input ⟨some ctx, output, none, some available⟩ =
        .ok (.rejected ⟨some ctx, output, none, some bytes⟩) := by
    rw [inverseReal_query hp, hb]
  obtain ⟨own, hown, ha, hlent⟩ := h.runs_own hctx
  rw [hb] at hlent
  refine ⟨hquery, fun scratch => ⟨?_, ?_⟩, own, hown, ha, hlent, ?_⟩
  · intro available hshort
    rw [inverseReal_short hp (hb.symm ▸ hshort), hb]
  · exact inverseReal_slotless count input ctx output scratch
  · intro available
    refine ⟨_, hquery available, rfl, fun scratch hsize => ?_⟩
    exact hlent scratch bytes (by omega) (Nat.le_refl bytes)

theorem scratch_protocol_sixteen :
    let ctx : Context Float32 := Context.built ⟨16, .inverse, true, true⟩ ⟨16, 9⟩ (.fresh 25)
    let bins : Array (Cplx Float32) := Array.replicate 5 ⟨1, 0⟩
    let samples : Array Float32 := Array.replicate 8 0
    ctx.Reachable ∧ Ready ctx 8 3 bins samples ∧
      inverseReal 8 bins ⟨some ctx, samples, some bins, some 39⟩ =
        .ok (.rejected ⟨some ctx, samples, some bins, some 40⟩) ∧
      ∃ own query lent, inverseReal 8 bins ⟨some ctx, samples, none, none⟩ = .ok own ∧
        own.accepted = true ∧
        inverseReal 8 bins ⟨some ctx, samples, none, some 7⟩ = .ok query ∧
        inverseReal 8 bins { query.after with scratch := some bins } = .ok lent ∧
        lent.RunsAs own ctx 40 := by
  intro ctx bins samples
  have hl : ctx.config.layout = .ok ⟨16, 9⟩ := by decide
  have hctx : ctx.Reachable := Context.reachable_fresh hl (by decide)
  have h : Ready ctx 8 3 bins samples :=
    ⟨by decide, rfl, rfl, by decide, by simp [bins], by simp [samples]⟩
  obtain ⟨-, hshort, own, hown, ha, -, hretry⟩ := scratch_protocol hctx h
  obtain ⟨query, hquery, -, hlent⟩ := hretry 7
  obtain ⟨lent, hlent', hruns⟩ := hlent bins (by simp [bins])
  exact ⟨hctx, h, (hshort bins).1 39 (by decide), own, query, lent, hown, ha, hquery, hlent',
    hruns⟩

/-- What a refused call leaves in its slot. Where only the cells are short, the slot keeps the size
that it claims. -/
theorem slot_of_shortage (hctx : ctx.Reachable) (h : Ready ctx count k input output)
    (scratch : Option (Array (Cplx α))) (available : Nat) :
    let bytes := 8 * (2 ^ k / 2 + 1)
    ∃ o, inverseReal count input ⟨some ctx, output, scratch, some available⟩ = .ok o ∧
      (o.accepted = true ↔ ∃ cells ∈ scratch, bytes ≤ 8 * cells.size ∧ bytes ≤ available) ∧
      (o.accepted = false → ∃ slot, o.after = ⟨some ctx, output, scratch, some slot⟩ ∧
        (slot = bytes ∨ slot = available) ∧
        (slot = bytes ↔ scratch = none ∨ available ≤ bytes)) := by
  intro bytes
  have hp := h.isPowerOfTwo_count
  have hb : scratchBytes count = bytes := scratchBytes_of_toInt h.count_eq
  rcases scratch with _ | cells
  · refine ⟨_, inverseReal_query hp input ctx output available, by simp [Outcome.rejected], ?_⟩
    intro _
    exact ⟨bytes, by rw [Outcome.rejected, hb], .inl rfl, by simp⟩
  obtain hshort | hbytes := Nat.lt_or_ge available bytes
  · have hshort' : available < scratchBytes count := hb.symm ▸ hshort
    refine ⟨_, inverseReal_short hp hshort' input ctx output cells, ?_, ?_⟩
    · simp [Outcome.rejected, Nat.not_le.2 hshort]
    · intro _
      exact ⟨bytes, by rw [Outcome.rejected, hb], .inl rfl, by simp [Nat.le_of_lt hshort]⟩
  -- the slot claims enough, so that only the cells can be short, and the context finds that out
  · obtain ⟨o, ho, ha, hrefused⟩ := h.answers_lent hctx (hb.symm ▸ hbytes) cells
    refine ⟨o, ho, by simp [ha, hb, hbytes], fun hrefusal => ?_⟩
    refine ⟨available, hrefused hrefusal, .inr rfl, ?_⟩
    simp [le_antisymm_iff, hbytes]

theorem slot_of_shortage_sixteen :
    let ctx : Context Float32 := Context.built ⟨16, .both, true, true⟩ ⟨16, 9⟩ (.fresh 25)
    let bins : Array (Cplx Float32) := Array.replicate 5 ⟨1, 0⟩
    let samples : Array Float32 := Array.replicate 8 0
    let short : Array (Cplx Float32) := Array.replicate 4 ⟨2, 3⟩
    ctx.Reachable ∧ Ready ctx 8 3 bins samples ∧
      (∃ o, inverseReal 8 bins ⟨some ctx, samples, some short, some 24⟩ = .ok o ∧
        o.accepted = false ∧ o.after.slot = some 40) ∧
      ∃ o, inverseReal 8 bins ⟨some ctx, samples, some bins, some 1000⟩ = .ok o ∧
        o.accepted = true := by
  intro ctx bins samples short
  have hl : ctx.config.layout = .ok ⟨16, 9⟩ := by decide
  have hctx : ctx.Reachable := Context.reachable_fresh hl (by decide)
  have h : Ready ctx 8 3 bins samples :=
    ⟨by decide, rfl, rfl, by decide, by simp [bins], by simp [samples]⟩
  refine ⟨hctx, h, ?_, ?_⟩
  · obtain ⟨o, ho, ha, hslot⟩ := slot_of_shortage hctx h (some short) 24
    have hrefused : o.accepted = false := by
      rw [Bool.eq_false_iff, ne_eq, ha]
      simp
    obtain ⟨slot, hafter, -, hbytes⟩ := hslot hrefused
    refine ⟨o, ho, hrefused, ?_⟩
    rw [hafter, hbytes.2 (.inr (by decide))]
    rfl
  · obtain ⟨o, ho, ha, -⟩ := slot_of_shortage hctx h (some bins) 1000
    exact ⟨o, ho, ha.2 ⟨bins, rfl, by simp [bins], by decide⟩⟩

theorem shortage_not_reported :
    let ctx : Context Float32 := Context.built ⟨16, .both, true, true⟩ ⟨16, 9⟩ (.fresh 25)
    let bins : Array (Cplx Float32) := Array.replicate 5 ⟨1, 0⟩
    let samples : Array Float32 := Array.replicate 8 0
    let short : Array (Cplx Float32) := Array.replicate 4 ⟨2, 3⟩
    ctx.Reachable ∧ Ready ctx 8 3 bins samples ∧
      ∃ o, inverseReal 8 bins ⟨some ctx, samples, some short, some 1000⟩ = .ok o ∧
        o.accepted = false ∧ o.after.slot = some 1000 ∧
        o.after.slot ≠ some (8 * (2 ^ 3 / 2 + 1)) := by
  intro ctx bins samples short
  have hl : ctx.config.layout = .ok ⟨16, 9⟩ := by decide
  have hctx : ctx.Reachable := Context.reachable_fresh hl (by decide)
  have h : Ready ctx 8 3 bins samples :=
    ⟨by decide, rfl, rfl, by decide, by simp [bins], by simp [samples]⟩
  have hb : scratchBytes 8 = 40 := by decide
  have hclaim : scratchBytes 8 ≤ 1000 := by decide
  obtain ⟨o, ho, ha, hunchanged⟩ := h.answers_lent hctx hclaim short
  have hrefused : o.accepted = false := by
    rw [Bool.eq_false_iff, ne_eq, ha, hb]
    simp [short]
  refine ⟨hctx, h, o, ho, hrefused, ?_, ?_⟩
  · rw [hunchanged hrefused]
  · rw [hunchanged hrefused]
    decide

end Protocol

end DyadicFourier.Entry
