import DyadicFourier.Proofs.Entry.ScratchSlot

namespace DyadicFourier.Entry

variable {α β : Type} {ctx : Option (Context α)} {count : Int32} {call : Nat → Call α}

def Violates (ctx : Option (Context α)) (count : Int32) (call : Nat → Call α) : Prop :=
  ctx = none ∨ (∀ k : Nat, count.toInt ≠ 2 ^ k) ∨
    ∃ c ∈ ctx, ∃ d ∈ (call (word count)).demands c.config, ¬d.met

/-- There is nothing to write to the slot: it holds the needed size already, or it comes with a
scratch and claims enough for it. -/
def KeepsSlot (scratch : Option (Array (Cplx α))) (slot : Option Nat) (bytes : Nat) : Prop :=
  ∀ available ∈ slot, available = bytes ∨ scratch ≠ none ∧ bytes ≤ available

theorem InverseArgs.Supplied.keepsSlot {args : InverseArgs α} {bytes : Nat}
    (h : args.Supplied bytes) : KeepsSlot args.scratch args.slot bytes := by
  intro available havailable
  rcases h with ⟨-, hslot⟩ | ⟨hscratch, claimed, hclaimed, hbytes⟩
  · rw [hslot] at havailable
    cases havailable
  · cases Option.mem_unique havailable hclaimed
    exact .inr ⟨hscratch, hbytes⟩

theorem map_const_eq_iff {args : InverseArgs α} {bytes : Nat} (h : ¬args.Supplied bytes) :
    (args.slot.map fun _ => bytes) = args.slot ↔ KeepsSlot args.scratch args.slot bytes := by
  obtain ⟨ctx, output, scratch, _ | available⟩ := args
  · simp [KeepsSlot]
  · have hshort : ¬(scratch ≠ none ∧ bytes ≤ available) :=
      fun hs => h (.inr ⟨hs.1, available, rfl, hs.2⟩)
    simp [KeepsSlot, hshort, eq_comm]

theorem count_mem_realDemands (config : Config) (count : Nat) (sense : Sense) :
    ⟨count.isPowerOfTwo, .notPowerOfTwo⟩ ∈ config.realDemands count sense :=
  List.mem_cons_of_mem _ List.mem_cons_self

theorem Outcome.Refines.keeps {o : Outcome β} {run : Context α → Nat → Checked (Reply β)}
    {before : β} (h : o.Refines ctx count run before) (hv : Violates ctx count call)
    (hcount : ∀ config, ⟨(word count).isPowerOfTwo, .notPowerOfTwo⟩ ∈
      (call (word count)).demands config)
    (hmet : ∀ c ∈ ctx, ∀ reply, run c (word count) = .ok reply → reply.refusal = none →
      ∀ d ∈ (call (word count)).demands c.config, d.met) :
    o.accepted = false ∧ o.after = before := by
  have hrefused : o.accepted = false := by
    rw [Bool.eq_false_iff]
    intro ha
    obtain ⟨c, hc, -, reply, hreply, haccepted⟩ := h.accepted_iff.1 ha
    have hall := hmet c hc reply hreply (Reply.isAccepted_iff.1 haccepted)
    rcases hv with rfl | hbad | ⟨c', hc', d, hd, hunmet⟩
    · cases hc
    · have hpow : (word count).isPowerOfTwo := hall _ (hcount c.config)
      have hp : isPowerOfTwo count = true :=
        (isPowerOfTwo_word count).symm.trans (Word.isPowerOfTwo_iff.2 hpow)
      obtain ⟨k, -, hk⟩ := isPowerOfTwo_iff_exists.1 hp
      exact hbad k hk
    · cases Option.mem_unique hc hc'
      exact hunmet (hall d hd)
  exact ⟨hrefused, h.unchanged hrefused⟩

variable [Scalar α] [UnitRoots α]

theorem transform_keeps (hctx : ∀ c ∈ ctx, c.Reachable) (sense : Sense)
    {input out : Array (Cplx α)} (hv : Violates ctx count call)
    (hdemands : ∀ config, (call (word count)).demands config =
      config.countDemands (word count) sense ++
        [sizeDemand input.size (word count) out.size (word count)]) :
    ∃ o, withCount ctx count out (fun c n => c.transformComplex sense n input out) = .ok o ∧
      o.accepted = false ∧ o.after = out := by
  obtain ⟨o, ho, href⟩ := transform_refines hctx sense count input out
  refine ⟨o, ho, href.keeps hv ?_ ?_⟩
  · intro config
    rw [hdemands]
    exact List.mem_append_left _ List.mem_cons_self
  · intro c hc reply hreply hnone
    rw [(hctx c hc).sound.transformComplex_eq] at hreply
    cases hreply
    rw [hdemands]
    rwa [Context.refusal_complexReply, Demand.firstUnmet_eq_none_iff] at hnone

theorem forwardReal_keeps (hctx : ∀ c ∈ ctx, c.Reachable) {input : Array α}
    {out : Array (Cplx α)} (hv : Violates ctx count (.forwardReal · input out)) :
    ∃ o, forwardReal ctx count input out = .ok o ∧ o.accepted = false ∧ o.after = out := by
  obtain ⟨o, ho, href⟩ := forwardReal_refines hctx count input out
  refine ⟨o, ho, href.keeps hv ?_ ?_⟩
  · intro config
    exact List.mem_append_left _ (count_mem_realDemands config _ _)
  · intro c hc reply hreply hnone
    rw [(hctx c hc).sound.forwardReal_eq] at hreply
    cases hreply
    rwa [Context.refusal_forwardReply, Demand.firstUnmet_eq_none_iff] at hnone

section Inverse

variable {input : Array (Cplx α)} {output : Array α}

theorem ownCall_keeps (hctx : ∀ c ∈ ctx, c.Reachable)
    (hv : Violates ctx count (.inverseReal · input output)) :
    ∃ o, inverseReal count input ⟨ctx, output, none, none⟩ = .ok o ∧ o.accepted = false ∧
      o.after = ⟨ctx, output, none, none⟩ := by
  obtain ⟨o, ho, href⟩ := ownCall_refines hctx count input output
  refine ⟨o, ho, href.keeps hv ?_ ?_⟩
  · intro config
    exact List.mem_append_left _ (count_mem_realDemands config _ _)
  · intro c hc reply hreply hnone
    obtain ⟨own, hown, -⟩ := (hctx c hc).sound.scratch_eq
    rw [InverseArgs.ownCall_eq _ (hctx c hc).sound hown] at hreply
    cases hreply
    change (c.inverseReply (word count) input ⟨output, own⟩).refusal = none at hnone
    rwa [(hctx c hc).sound.refusal_inverseReply_own hown, Demand.firstUnmet_eq_none_iff] at hnone

theorem lentCall_keeps (hctx : ∀ c ∈ ctx, c.Reachable) {available : Nat}
    (hbytes : scratchBytes count ≤ available) (scratch : Array (Cplx α))
    (hv : Violates ctx count (.inverseReal · input output)) :
    ∃ o, inverseReal count input ⟨ctx, output, some scratch, some available⟩ = .ok o ∧
      o.accepted = false ∧ o.after = ⟨ctx, output, some scratch, some available⟩ := by
  obtain ⟨o, ho, href⟩ := lentCall_refines hctx (fun _ => hbytes) input output scratch
  refine ⟨o, ho, href.keeps hv ?_ ?_⟩
  · intro config
    exact List.mem_append_left _ (count_mem_realDemands config _ _)
  · intro c hc reply hreply hnone
    rw [InverseArgs.lentCall_eq _ (hctx c hc).sound] at hreply
    cases hreply
    change (c.inverseReply (word count) input ⟨output, scratch⟩).refusal = none at hnone
    rw [Context.refusal_inverseReply, Demand.firstUnmet_eq_none_iff] at hnone
    -- the context demands more of this call than of the one in its own scratch
    intro d hd
    apply hnone
    rw [List.append_cons]
    exact List.mem_append_left _ hd

theorem inverseReal_keeps_but_slot (hctx : ∀ c ∈ ctx, c.Reachable)
    (scratch : Option (Array (Cplx α))) (slot : Option Nat)
    (hv : Violates ctx count (.inverseReal · input output)) :
    ∃ o slot', inverseReal count input ⟨ctx, output, scratch, slot⟩ = .ok o ∧
      o.accepted = false ∧ o.after = ⟨ctx, output, scratch, slot'⟩ ∧
      (slot' = slot ∨ slot' = some (scratchBytes count)) ∧
      (slot' = slot ↔ ctx ≠ none → isPowerOfTwo count = true →
        KeepsSlot scratch slot (scratchBytes count)) := by
  rcases ctx with _ | c
  · exact ⟨_, slot, inverseReal_absent count input output scratch slot, rfl, rfl, .inl rfl,
      by simp⟩
  cases hp : isPowerOfTwo count with
  | false => exact ⟨_, slot, inverseReal_uncounted hp input _, rfl, rfl, .inl rfl, by simp⟩
  | true =>
      by_cases hargs : InverseArgs.Supplied ⟨some c, output, scratch, slot⟩ (scratchBytes count)
      · have hkeeps := hargs.keepsSlot
        rcases hargs with ⟨rfl, rfl⟩ | ⟨hscratch, available, rfl, hbytes⟩
        · obtain ⟨o, ho, ha, hafter⟩ := ownCall_keeps hctx hv
          exact ⟨o, none, ho, ha, hafter, .inl rfl, by simp [hkeeps]⟩
        · obtain ⟨cells, rfl⟩ := Option.ne_none_iff_exists'.1 hscratch
          obtain ⟨o, ho, ha, hafter⟩ := lentCall_keeps hctx hbytes cells hv
          exact ⟨o, some available, ho, ha, hafter, .inl rfl, by simp [hkeeps]⟩
      · refine ⟨_, _, inverseReal_unsupplied hp hargs input, rfl, rfl, ?_, ?_⟩
        · cases slot with
          | none => exact .inl rfl
          | some available => exact .inr rfl
        · rw [map_const_eq_iff hargs]
          simp

end Inverse

theorem violations_exact (hctx : ∀ c ∈ ctx, c.Reachable) (count : Int32) :
    (∀ input out, Violates ctx count (.forwardComplex · input out) →
      ∃ o, forwardComplex ctx count input out = .ok o ∧ o.accepted = false ∧ o.after = out) ∧
    (∀ input out, Violates ctx count (.inverseComplex · input out) →
      ∃ o, inverseComplex ctx count input out = .ok o ∧ o.accepted = false ∧ o.after = out) ∧
    (∀ input out, Violates ctx count (.forwardReal · input out) →
      ∃ o, forwardReal ctx count input out = .ok o ∧ o.accepted = false ∧ o.after = out) ∧
    ∀ input output scratch slot, Violates ctx count (.inverseReal · input output) →
      ∃ o slot', inverseReal count input ⟨ctx, output, scratch, slot⟩ = .ok o ∧
        o.accepted = false ∧ o.after = ⟨ctx, output, scratch, slot'⟩ ∧
        (slot' = slot ∨ slot' = some (scratchBytes count)) ∧
        (slot' = slot ↔ ctx ≠ none → isPowerOfTwo count = true →
          KeepsSlot scratch slot (scratchBytes count)) := by
  refine ⟨?_, ?_, ?_, ?_⟩
  · intro input out hv
    exact transform_keeps hctx .forward hv fun _ => rfl
  · intro input out hv
    exact transform_keeps hctx .inverse hv fun _ => rfl
  · intro input out hv
    exact forwardReal_keeps hctx hv
  · intro input output scratch slot hv
    exact inverseReal_keeps_but_slot hctx scratch slot hv

theorem violations_exact_sixteen :
    let ctx : Context Float32 := Context.built ⟨16, .both, true, true⟩ ⟨16, 9⟩ (.fresh 25)
    let bins : Array (Cplx Float32) := Array.replicate 32 ⟨1, 0⟩
    let samples : Array Float32 := Array.replicate 32 0
    let cells : Array (Cplx Float32) := Array.replicate 17 ⟨2, 3⟩
    ctx.Reachable ∧ Violates (some ctx) 32 (.forwardComplex · bins bins) ∧
      Violates (some ctx) 32 (.inverseReal · bins samples) ∧
      (∃ o, forwardComplex (some ctx) 32 bins bins = .ok o ∧ o.accepted = false ∧
        o.after = bins) ∧
      ∃ o, inverseReal 32 bins ⟨some ctx, samples, some cells, some 136⟩ = .ok o ∧
        o.accepted = false ∧ o.after = ⟨some ctx, samples, some cells, some 136⟩ := by
  intro ctx bins samples cells
  have hl : ctx.config.layout = .ok ⟨16, 9⟩ := by decide
  have h : ctx.Reachable := Context.reachable_fresh hl (by decide)
  have hctx : ∀ c ∈ some ctx, c.Reachable := by
    rintro c ⟨⟩
    exact h
  have hforward : Violates (some ctx) 32 (.forwardComplex · bins bins) :=
    .inr (.inr ⟨ctx, rfl, _, .tail _ (.head _), by decide⟩)
  have hinverse : Violates (some ctx) 32 (.inverseReal · bins samples) :=
    .inr (.inr ⟨ctx, rfl, _, .tail _ (.tail _ (.head _)), by decide⟩)
  obtain ⟨hcomplex, -, -, hreal⟩ := violations_exact hctx 32
  refine ⟨h, hforward, hinverse, hcomplex bins bins hforward, ?_⟩
  obtain ⟨o, slot, ho, ha, hafter, -, hslot⟩ := hreal bins samples (some cells) (some 136) hinverse
  have hkept : slot = some 136 := by
    rw [hslot]
    rintro - - _ ⟨⟩
    exact .inl (by decide)
  exact ⟨o, ho, ha, hkept ▸ hafter⟩

theorem slot_written_beyond_capacity :
    let ctx : Context Float32 := Context.built ⟨16, .both, true, true⟩ ⟨16, 9⟩ (.fresh 25)
    let bins : Array (Cplx Float32) := Array.replicate 32 ⟨1, 0⟩
    let samples : Array Float32 := Array.replicate 32 0
    let cells : Array (Cplx Float32) := Array.replicate 17 ⟨2, 3⟩
    ctx.Reachable ∧ Violates (some ctx) 32 (.inverseReal · bins samples) ∧
      ∃ o, inverseReal 32 bins ⟨some ctx, samples, some cells, some 40⟩ = .ok o ∧
        o.accepted = false ∧ o.after ≠ ⟨some ctx, samples, some cells, some 40⟩ := by
  intro ctx bins samples cells
  have hl : ctx.config.layout = .ok ⟨16, 9⟩ := by decide
  have hinverse : Violates (some ctx) 32 (.inverseReal · bins samples) :=
    .inr (.inr ⟨ctx, rfl, _, .tail _ (.tail _ (.head _)), by decide⟩)
  have hshort : 40 < scratchBytes 32 := by decide
  refine ⟨Context.reachable_fresh hl (by decide), hinverse, _,
    inverseReal_short (by decide) hshort bins ctx samples cells, rfl, ?_⟩
  intro hsame
  exact absurd (congrArg InverseArgs.slot hsame) (by decide)

end DyadicFourier.Entry
