import DyadicFourier.Proofs.Context.Demands
import DyadicFourier.Proofs.Entry.Counts

namespace DyadicFourier.Entry

variable {α β : Type}

structure Outcome.Refines (o : Outcome β) (ctx : Option (Context α)) (count : Int32)
    (run : Context α → Nat → Checked (Reply β)) (before : β) : Prop where
  accepted_iff : o.accepted = true ↔ ∃ c ∈ ctx, 0 < count ∧
    ∃ reply, run c (word count) = .ok reply ∧ reply.isAccepted = true
  after_eq : ∀ c ∈ ctx, ∀ reply, run c (word count) = .ok reply → o.accepted = true →
    o.after = reply.after
  unchanged : o.accepted = false → o.after = before

def InverseArgs.Supplied (args : InverseArgs α) (bytes : Nat) : Prop :=
  (args.scratch = none ∧ args.slot = none) ∨
    args.scratch ≠ none ∧ ∃ available ∈ args.slot, bytes ≤ available

theorem withCount_refines {ctx : Option (Context α)} {count : Int32} {before : β}
    {run : Context α → Nat → Checked (Reply β)}
    (hrun : ∀ c ∈ ctx, ∃ reply, run c (word count) = .ok reply ∧
      (reply.isAccepted = true → Word.isPowerOfTwo (word count) = true) ∧
      reply.Atomic before) :
    ∃ o, withCount ctx count before run = .ok o ∧ o.Refines ctx count run before := by
  cases ctx with
  | none => exact ⟨.rejected before, rfl, by simp [Outcome.rejected], by simp, fun _ => rfl⟩
  | some c =>
      obtain ⟨reply, hreply, hpow, hrefused⟩ := hrun c rfl
      have hunique {r : Reply β} (h : run c (word count) = .ok r) : r = reply :=
        Except.ok.inj (h.symm.trans hreply)
      rw [isPowerOfTwo_word] at hpow
      by_cases hp : isPowerOfTwo count = true
      · have haccepts : withCount (some c) count before run = .ok (.ofReply reply) := by
          simp only [withCount, if_pos hp, hreply]
          rfl
        refine ⟨.ofReply reply, haccepts, ⟨?_, ?_, hrefused⟩⟩
        · constructor
          · intro ha
            exact ⟨c, rfl, pos_of_isPowerOfTwo hp, reply, hreply, ha⟩
          · rintro ⟨c, ⟨⟩, -, r, hr, ha⟩
            exact hunique hr ▸ ha
        · rintro c ⟨⟩ r hr -
          rw [hunique hr]
          rfl
      -- a count that the entry turns away is one that the context refuses as well
      · refine ⟨.rejected before, by simp only [withCount, if_neg hp], ⟨?_, ?_, fun _ => rfl⟩⟩
        · constructor
          · intro ha
            cases ha
          · rintro ⟨c, ⟨⟩, -, r, hr, ha⟩
            exact absurd (hpow (hunique hr ▸ ha)) hp
        · intro _ _ _ _ ha
          cases ha

theorem isPowerOfTwo_of_realRefusal? {ctx : Context α} {count : Nat} {sense : Sense}
    (hr : ctx.realRefusal? count sense = none) : Word.isPowerOfTwo count = true :=
  (Context.refusal?_eq_none_iff.1 (Context.realRefusal?_eq_none_iff.1 hr).2).1

variable [Scalar α]

theorem inverseReal_unsupplied {count : Int32} (hp : isPowerOfTwo count = true) {ctx : Context α}
    {output : Array α} {scratch : Option (Array (Cplx α))} {slot : Option Nat}
    (hargs : ¬InverseArgs.Supplied ⟨some ctx, output, scratch, slot⟩ (scratchBytes count))
    (input : Array (Cplx α)) : inverseReal count input ⟨some ctx, output, scratch, slot⟩ =
      .ok (.rejected ⟨some ctx, output, scratch, slot.map fun _ => scratchBytes count⟩) := by
  rcases scratch with _ | cells
  · rcases slot with _ | available
    · exact absurd (.inl ⟨rfl, rfl⟩) hargs
    · exact inverseReal_query hp input ctx output available
  · rcases slot with _ | available
    · exact inverseReal_slotless count input ctx output cells
    · have hshort : available < scratchBytes count := by
        apply Nat.lt_of_not_le
        intro hbytes
        exact hargs (.inr ⟨by simp, available, rfl, hbytes⟩)
      exact inverseReal_short hp hshort input ctx output cells

variable [UnitRoots α]

theorem ownCall_answers {args : InverseArgs α} {ctx : Context α} (h : ctx.Sound)
    (hctx : args.context = some ctx) (input : Array (Cplx α)) (count : Nat) :
    ∃ reply, args.ownCall input ctx count = .ok reply ∧
      (reply.isAccepted = true → Word.isPowerOfTwo count = true) ∧ reply.Atomic args := by
  obtain ⟨own, hown, -⟩ := h.scratch_eq
  refine ⟨_, args.ownCall_eq h hown input count, ?_, ?_⟩
  · intro ha
    exact isPowerOfTwo_of_realRefusal? (Context.isAccepted_inverseReply.1 ha).1
  · intro hrefused
    simp only [Reply.map, Context.atomic_inverseReply hrefused, h.withRows_self hown, ← hctx]

theorem lentCall_answers {args : InverseArgs α} {ctx : Context α} {scratch : Array (Cplx α)}
    (h : ctx.Sound) (hscratch : args.scratch = some scratch) (input : Array (Cplx α))
    (count : Nat) :
    ∃ reply, args.lentCall scratch input ctx count = .ok reply ∧
      (reply.isAccepted = true → Word.isPowerOfTwo count = true) ∧ reply.Atomic args := by
  refine ⟨_, args.lentCall_eq h scratch input count, ?_, ?_⟩
  · intro ha
    exact isPowerOfTwo_of_realRefusal? (Context.isAccepted_inverseReply.1 ha).1
  · intro hrefused
    simp only [Reply.map, Context.atomic_inverseReply hrefused, ← hscratch]

theorem transform_refines {ctx : Option (Context α)} (hctx : ∀ c ∈ ctx, c.Reachable)
    (sense : Sense) (count : Int32) (input out : Array (Cplx α)) :
    ∃ o, withCount ctx count out (fun c n => c.transformComplex sense n input out) = .ok o ∧
      o.Refines ctx count (fun c n => c.transformComplex sense n input out) out := by
  apply withCount_refines
  intro c hc
  refine ⟨_, (hctx c hc).sound.transformComplex_eq sense _ input out, ?_, ?_⟩
  · intro ha
    exact (Context.refusal?_eq_none_iff.1 (Context.isAccepted_complexReply.1 ha).1).1
  · exact Context.atomic_complexReply

theorem forwardReal_refines {ctx : Option (Context α)} (hctx : ∀ c ∈ ctx, c.Reachable)
    (count : Int32) (input : Array α) (out : Array (Cplx α)) :
    ∃ o, forwardReal ctx count input out = .ok o ∧
      o.Refines ctx count (fun c n => c.forwardReal n input out) out := by
  apply withCount_refines
  intro c hc
  refine ⟨_, (hctx c hc).sound.forwardReal_eq _ input out, ?_, ?_⟩
  · intro ha
    exact isPowerOfTwo_of_realRefusal? (Context.isAccepted_forwardReply.1 ha).1
  · exact Context.atomic_forwardReply

theorem ownCall_refines {ctx : Option (Context α)} (hctx : ∀ c ∈ ctx, c.Reachable)
    (count : Int32) (input : Array (Cplx α)) (output : Array α) :
    ∃ o, inverseReal count input ⟨ctx, output, none, none⟩ = .ok o ∧
      o.Refines ctx count (InverseArgs.ownCall ⟨ctx, output, none, none⟩ input)
        ⟨ctx, output, none, none⟩ := by
  rw [inverseReal_own]
  exact withCount_refines fun c hc => ownCall_answers (hctx c hc).sound hc input _

theorem lentCall_refines {ctx : Option (Context α)} (hctx : ∀ c ∈ ctx, c.Reachable)
    {count : Int32} {available : Nat} (hbytes : 0 < count → scratchBytes count ≤ available)
    (input : Array (Cplx α)) (output : Array α) (scratch : Array (Cplx α)) :
    ∃ o, inverseReal count input ⟨ctx, output, some scratch, some available⟩ = .ok o ∧
      o.Refines ctx count
        (InverseArgs.lentCall ⟨ctx, output, some scratch, some available⟩ scratch input)
        ⟨ctx, output, some scratch, some available⟩ := by
  rw [inverseReal_lent hbytes]
  exact withCount_refines fun c hc => lentCall_answers (hctx c hc).sound rfl input _

theorem inverseReal_settled {ctx : Option (Context α)} (hctx : ∀ c ∈ ctx, c.Reachable)
    (count : Int32) (input : Array (Cplx α)) (output : Array α)
    (scratch : Option (Array (Cplx α))) (slot : Option Nat) :
    ∃ o, inverseReal count input ⟨ctx, output, scratch, slot⟩ = .ok o ∧
      (o.accepted = true →
        InverseArgs.Supplied ⟨ctx, output, scratch, slot⟩ (scratchBytes count)) ∧
      (o.accepted = false → ∃ slot', o.after = ⟨ctx, output, scratch, slot'⟩) := by
  by_cases hargs : InverseArgs.Supplied ⟨ctx, output, scratch, slot⟩ (scratchBytes count)
  · rcases hargs with ⟨rfl, rfl⟩ | ⟨hscratch, available, rfl, hbytes⟩
    · obtain ⟨o, ho, href⟩ := ownCall_refines hctx count input output
      exact ⟨o, ho, fun _ => .inl ⟨rfl, rfl⟩, fun hrefused => ⟨none, href.unchanged hrefused⟩⟩
    · obtain ⟨cells, rfl⟩ := Option.ne_none_iff_exists'.1 hscratch
      obtain ⟨o, ho, href⟩ := lentCall_refines hctx (fun _ => hbytes) input output cells
      exact ⟨o, ho, fun _ => .inr ⟨hscratch, available, rfl, hbytes⟩,
        fun hrefused => ⟨some available, href.unchanged hrefused⟩⟩
  · rcases ctx with _ | c
    · exact ⟨_, inverseReal_absent count input output scratch slot, by simp [Outcome.rejected],
        fun _ => ⟨slot, rfl⟩⟩
    cases hp : isPowerOfTwo count with
    | false =>
        exact ⟨_, inverseReal_uncounted hp input _, by simp [Outcome.rejected],
          fun _ => ⟨slot, rfl⟩⟩
    | true =>
        exact ⟨_, inverseReal_unsupplied hp hargs input, by simp [Outcome.rejected],
          fun _ => ⟨_, rfl⟩⟩

theorem entries_refine_calls :
    (∀ ctx : Option (Context α), (∀ c ∈ ctx, c.Reachable) → ∀ count : Int32,
      (∀ input out, ∃ o, forwardComplex ctx count input out = .ok o ∧
        o.Refines ctx count (fun c n => c.forwardComplex n input out) out) ∧
      (∀ input out, ∃ o, inverseComplex ctx count input out = .ok o ∧
        o.Refines ctx count (fun c n => c.inverseComplex n input out) out) ∧
      (∀ input out, ∃ o, forwardReal ctx count input out = .ok o ∧
        o.Refines ctx count (fun c n => c.forwardReal n input out) out) ∧
      (∀ input output, ∃ o, inverseReal count input ⟨ctx, output, none, none⟩ = .ok o ∧
        o.Refines ctx count (InverseArgs.ownCall ⟨ctx, output, none, none⟩ input)
          ⟨ctx, output, none, none⟩) ∧
      (∀ input output scratch available, (0 < count → scratchBytes count ≤ available) →
        ∃ o, inverseReal count input ⟨ctx, output, some scratch, some available⟩ = .ok o ∧
          o.Refines ctx count
            (InverseArgs.lentCall ⟨ctx, output, some scratch, some available⟩ scratch input)
            ⟨ctx, output, some scratch, some available⟩) ∧
      ∀ input output scratch slot,
        ∃ o, inverseReal count input ⟨ctx, output, scratch, slot⟩ = .ok o ∧
          (o.accepted = true →
            InverseArgs.Supplied ⟨ctx, output, scratch, slot⟩ (scratchBytes count)) ∧
          (o.accepted = false → ∃ slot', o.after = ⟨ctx, output, scratch, slot'⟩)) ∧
    ∀ x : Int32, (isPowerOfTwo x = true ↔ ∃ k ≤ 30, x.toInt = 2 ^ k) ∧
      testInOrder x = some (isPowerOfTwo x) ∧ Word.isPowerOfTwo (word x) = isPowerOfTwo x := by
  refine ⟨fun ctx hctx count => ⟨?_, ?_, ?_, ?_, ?_, ?_⟩, fun x => ⟨?_, ?_, ?_⟩⟩
  · exact transform_refines hctx .forward count
  · exact transform_refines hctx .inverse count
  · exact forwardReal_refines hctx count
  · exact ownCall_refines hctx count
  · intro input output scratch available hbytes
    exact lentCall_refines hctx hbytes input output scratch
  · exact inverseReal_settled hctx count
  · exact isPowerOfTwo_iff_exists
  · exact testInOrder_eq x
  · exact isPowerOfTwo_word x

theorem entries_refine_calls_sixteen :
    let ctx : Context Float32 := Context.built ⟨16, .both, true, true⟩ ⟨16, 9⟩ (.fresh 25)
    let bins : Array (Cplx Float32) := Array.replicate 5 ⟨1, 0⟩
    let samples : Array Float32 := Array.replicate 8 0
    (∃ o reply, inverseReal 8 bins ⟨some ctx, samples, some bins, some 40⟩ = .ok o ∧
      ctx.inverseRealWith 8 bins ⟨samples, bins⟩ = .ok reply ∧ o.accepted = true ∧
      o.after = ⟨some ctx, reply.after.output, some reply.after.scratch, some 40⟩) ∧
    (∃ o, forwardComplex (some ctx) (-2147483648) bins bins = .ok o ∧ o.accepted = false ∧
      o.after = bins) ∧
    testInOrder (-2147483648) = some false := by
  intro ctx bins samples
  obtain ⟨hentries, hcounts⟩ := @entries_refine_calls Float32 _ _
  have hl : ctx.config.layout = .ok ⟨16, 9⟩ := by decide
  have h : ctx.Reachable := Context.reachable_fresh hl (by decide)
  have hctx : ∀ c ∈ some ctx, c.Reachable := by
    rintro c ⟨⟩
    exact h
  refine ⟨?_, ?_, (hcounts _).2.1⟩
  · obtain ⟨o, ho, href⟩ := (hentries (some ctx) hctx 8).2.2.2.2.1 bins samples bins 40
      fun _ => by decide
    have hreply := h.sound.inverseRealWith_eq 8 bins ⟨samples, bins⟩
    have hrun : InverseArgs.lentCall ⟨some ctx, samples, some bins, some 40⟩ bins bins ctx
        (word 8) = .ok ((ctx.inverseReply 8 bins ⟨samples, bins⟩).map fun ws =>
          ⟨some ctx, ws.output, some ws.scratch, some 40⟩) := by
      rw [InverseArgs.lentCall, show word 8 = 8 by decide, hreply]
      rfl
    have ha : o.accepted = true := by
      refine href.accepted_iff.2 ⟨ctx, rfl, by decide, _, hrun, ?_⟩
      exact Context.isAccepted_inverseReply.2
        ⟨by decide, by simp [bins, samples], by simp [bins]⟩
    exact ⟨o, _, ho, hreply, ha, href.after_eq ctx rfl _ hrun ha⟩
  · obtain ⟨o, ho, href⟩ := (hentries (some ctx) hctx (-2147483648)).1 bins bins
    have hrefused : o.accepted = false := by
      rw [Bool.eq_false_iff]
      intro ha
      obtain ⟨-, -, hpos, -⟩ := href.accepted_iff.1 ha
      exact absurd hpos (by decide)
    exact ⟨o, ho, hrefused, href.unchanged hrefused⟩

end DyadicFourier.Entry
