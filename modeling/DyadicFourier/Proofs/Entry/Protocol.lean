import DyadicFourier.Entry
import DyadicFourier.Proofs.Context.Replies

namespace DyadicFourier.Entry

variable {α β : Type} {count : Int32}

theorem pos_of_isPowerOfTwo (h : isPowerOfTwo count = true) : 0 < count := by
  rw [isPowerOfTwo, Bool.and_eq_true, decide_eq_true_eq] at h
  exact h.1

theorem word_eq (h : 0 < count) : word count = count.toInt.toNat := by
  have hpos : 0 < count.toInt := by simpa using Int32.lt_iff_toInt_lt.1 h
  have hwide : (0 : Int64) ≤ count.toInt64 := by
    rw [Int64.le_iff_toInt_le, Int32.toInt_toInt64]
    exact Int.le_of_lt hpos
  rw [word, Int64.toNat_toUInt64_of_le hwide, Int64.toNatClampNeg, Int32.toInt_toInt64]

def scratchBytes (count : Int32) : Nat :=
  Context.inverseRealScratchLen (word count) * pointBytes

theorem times_scratchLen (h : isPowerOfTwo count = true) :
    Word.times (Context.inverseRealScratchLen (word count)) pointBytes =
      .ok (scratchBytes count) := by
  have hlt := count.toInt_lt
  have hword := word_eq (pos_of_isPowerOfTwo h)
  apply Word.times_of_fits
  have hlimit : Word.limit = 2 ^ 64 := rfl
  rw [Word.Fits, Context.inverseRealScratchLen, pointBytes]
  omega

theorem withCount_some {ctx : Context α} {out : β} {run : Context α → Nat → Checked (Reply β)}
    {reply : Reply β} (h : isPowerOfTwo count = true) (hrun : run ctx (word count) = .ok reply) :
    withCount (some ctx) count out run = .ok (.ofReply reply) := by
  simp only [withCount, if_pos h, hrun]
  rfl

variable [Scalar α]

def InverseArgs.ownCall (args : InverseArgs α) (input : Array (Cplx α))
    (ctx : Context α) (count : Nat) : Checked (Reply (InverseArgs α)) := do
  let reply ← ctx.inverseReal count input args.output
  return reply.map fun after => { args with context := some after.1, output := after.2 }

def InverseArgs.lentCall (args : InverseArgs α) (scratch input : Array (Cplx α))
    (ctx : Context α) (count : Nat) : Checked (Reply (InverseArgs α)) := do
  let reply ← ctx.inverseRealWith count input ⟨args.output, scratch⟩
  return reply.map fun ws => { args with output := ws.output, scratch := some ws.scratch }

section Cases

variable {available : Nat}

theorem inverseReal_absent (count : Int32) (input : Array (Cplx α)) (output : Array α)
    (scratch : Option (Array (Cplx α))) (slot : Option Nat) :
    inverseReal count input ⟨none, output, scratch, slot⟩ =
      .ok (.rejected ⟨none, output, scratch, slot⟩) := rfl

theorem inverseReal_uncounted (h : isPowerOfTwo count = false) (input : Array (Cplx α))
    (args : InverseArgs α) : inverseReal count input args = .ok (.rejected args) := by
  obtain ⟨_ | ctx, output, scratch, slot⟩ := args
  · rfl
  · simp [inverseReal, h]

theorem inverseReal_slotless (count : Int32) (input : Array (Cplx α)) (ctx : Context α)
    (output : Array α) (scratch : Array (Cplx α)) :
    inverseReal count input ⟨some ctx, output, some scratch, none⟩ =
      .ok (.rejected ⟨some ctx, output, some scratch, none⟩) := by
  cases h : isPowerOfTwo count with
  | false => exact inverseReal_uncounted h input _
  | true =>
      simp only [inverseReal, if_pos h, times_scratchLen h]
      rfl

theorem inverseReal_query (h : isPowerOfTwo count = true) (input : Array (Cplx α))
    (ctx : Context α) (output : Array α) (available : Nat) :
    inverseReal count input ⟨some ctx, output, none, some available⟩ =
      .ok (.rejected ⟨some ctx, output, none, some (scratchBytes count)⟩) := by
  simp only [inverseReal, if_pos h, times_scratchLen h]
  rfl

theorem inverseReal_short (h : isPowerOfTwo count = true)
    (hshort : available < scratchBytes count) (input : Array (Cplx α)) (ctx : Context α)
    (output : Array α) (scratch : Array (Cplx α)) :
    inverseReal count input ⟨some ctx, output, some scratch, some available⟩ =
      .ok (.rejected ⟨some ctx, output, some scratch, some (scratchBytes count)⟩) := by
  simp only [inverseReal, if_pos h, times_scratchLen h, ok_bind, if_pos hshort]
  rfl

theorem inverseReal_own (count : Int32) (input : Array (Cplx α)) (ctx : Option (Context α))
    (output : Array α) : inverseReal count input ⟨ctx, output, none, none⟩ =
      withCount ctx count ⟨ctx, output, none, none⟩
        (InverseArgs.ownCall ⟨ctx, output, none, none⟩ input) := by
  cases ctx with
  | none => rfl
  | some c =>
      by_cases hp : isPowerOfTwo count = true
      · simp only [inverseReal, withCount, if_pos hp, times_scratchLen hp, ok_bind,
          InverseArgs.ownCall, bind_assoc]
        rfl
      · simp only [inverseReal, withCount, if_neg hp]

theorem inverseReal_lent (hbytes : 0 < count → scratchBytes count ≤ available)
    (input : Array (Cplx α)) (ctx : Option (Context α)) (output : Array α)
    (scratch : Array (Cplx α)) :
    inverseReal count input ⟨ctx, output, some scratch, some available⟩ =
      withCount ctx count ⟨ctx, output, some scratch, some available⟩
        (InverseArgs.lentCall ⟨ctx, output, some scratch, some available⟩ scratch input) := by
  cases ctx with
  | none => rfl
  | some c =>
      by_cases hp : isPowerOfTwo count = true
      · have hserves := Nat.not_lt.2 (hbytes (pos_of_isPowerOfTwo hp))
        simp only [inverseReal, withCount, if_pos hp, times_scratchLen hp, ok_bind,
          if_neg hserves, InverseArgs.lentCall, bind_assoc]
        rfl
      · simp only [inverseReal, withCount, if_neg hp]

end Cases

section Served

variable [UnitRoots α] {ctx : Context α} {own : Array (Cplx α)}

theorem InverseArgs.ownCall_eq (args : InverseArgs α) (h : ctx.Sound) (hown : ctx.scratch = .ok own)
    (input : Array (Cplx α)) (count : Nat) : args.ownCall input ctx count =
      .ok ((ctx.inverseReply count input ⟨args.output, own⟩).map fun ws =>
        { args with context := some (ctx.withRows ws.scratch), output := ws.output }) := by
  rw [ownCall, h.inverseReal_rows hown]
  rfl

theorem InverseArgs.lentCall_eq (args : InverseArgs α) (h : ctx.Sound)
    (scratch input : Array (Cplx α)) (count : Nat) : args.lentCall scratch input ctx count =
      .ok ((ctx.inverseReply count input ⟨args.output, scratch⟩).map fun ws =>
        { args with output := ws.output, scratch := some ws.scratch }) := by
  rw [lentCall, h.inverseRealWith_eq]
  rfl

theorem inverseReal_ownReply (hp : isPowerOfTwo count = true) (h : ctx.Sound)
    (hown : ctx.scratch = .ok own) (input : Array (Cplx α)) (output : Array α) :
    inverseReal count input ⟨some ctx, output, none, none⟩ =
      .ok (.ofReply ((ctx.inverseReply (word count) input ⟨output, own⟩).map fun ws =>
        ⟨some (ctx.withRows ws.scratch), ws.output, none, none⟩)) := by
  rw [inverseReal_own]
  exact withCount_some hp (InverseArgs.ownCall_eq _ h hown input _)

theorem inverseReal_lentReply (hp : isPowerOfTwo count = true) (h : ctx.Sound) {available : Nat}
    (hbytes : scratchBytes count ≤ available) (input : Array (Cplx α)) (output : Array α)
    (scratch : Array (Cplx α)) :
    inverseReal count input ⟨some ctx, output, some scratch, some available⟩ =
      .ok (.ofReply ((ctx.inverseReply (word count) input ⟨output, scratch⟩).map fun ws =>
        ⟨some ctx, ws.output, some ws.scratch, some available⟩)) := by
  rw [inverseReal_lent fun _ => hbytes]
  exact withCount_some hp (InverseArgs.lentCall_eq _ h scratch input _)

end Served

end DyadicFourier.Entry
