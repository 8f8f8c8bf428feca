import DyadicFourier.Proofs.Context.Effects

namespace DyadicFourier

variable {α : Type}

/-- A condition on a call, and the refusal of a call that does not meet it. -/
structure Demand where
  met : Prop
  [decidable : Decidable met]
  cause : Refusal

namespace Demand

instance (d : Demand) : Decidable d.met := d.decidable

def firstUnmet : List Demand → Option Refusal
  | [] => none
  | d :: ds => if d.met then firstUnmet ds else some d.cause

theorem firstUnmet_of_met {d : Demand} {ds : List Demand} (hd : d.met) :
    firstUnmet (d :: ds) = firstUnmet ds :=
  if_pos hd

theorem firstUnmet_of_not_met {d : Demand} {ds : List Demand} (hd : ¬d.met) :
    firstUnmet (d :: ds) = some d.cause :=
  if_neg hd

theorem firstUnmet_append (ds es : List Demand) :
    firstUnmet (ds ++ es) = (firstUnmet ds).or (firstUnmet es) := by
  induction ds with
  | nil => rfl
  | cons d ds ih =>
      by_cases hd : d.met
      · rw [List.cons_append, firstUnmet_of_met hd, firstUnmet_of_met hd, ih]
      · rw [List.cons_append, firstUnmet_of_not_met hd, firstUnmet_of_not_met hd, Option.some_or]

theorem firstUnmet_eq_none_iff {ds : List Demand} : firstUnmet ds = none ↔ ∀ d ∈ ds, d.met := by
  induction ds with
  | nil => simp [firstUnmet]
  | cons d ds ih =>
      rw [List.forall_mem_cons, ← ih]
      by_cases hd : d.met
      · simp [firstUnmet_of_met hd, hd]
      · simp [firstUnmet_of_not_met hd, hd]

theorem cause_mem_of_firstUnmet {ds : List Demand} {cause : Refusal}
    (h : firstUnmet ds = some cause) : ∃ d ∈ ds, d.cause = cause := by
  induction ds with
  | nil => cases h
  | cons d ds ih =>
      rw [firstUnmet] at h
      split at h
      · obtain ⟨e, he, hcause⟩ := ih h
        exact ⟨e, List.mem_cons_of_mem d he, hcause⟩
      · cases h
        exact ⟨d, List.mem_cons_self, rfl⟩

end Demand

namespace Config

def countDemands (config : Config) (count : Nat) (sense : Sense) : List Demand :=
  [⟨count.isPowerOfTwo, .notPowerOfTwo⟩,
    ⟨count ≤ config.maxCount, .countExceedsCapacity count config.maxCount⟩,
    ⟨config.direction.supports sense = true, .directionUnsupported⟩]

def realDemands (config : Config) (count : Nat) (sense : Sense) : List Demand :=
  ⟨config.real = true, .notRealContext⟩ :: config.countDemands count sense

end Config

def sizeDemand (input inputNeed output outputNeed : Nat) : Demand :=
  ⟨inputNeed ≤ input ∧ outputNeed ≤ output, .sizeMismatch⟩

/-- What a call has to meet, in the order in which it is looked at. -/
def Call.demands (config : Config) : Call α → List Demand
  | .forwardComplex count input out =>
    config.countDemands count .forward ++ [sizeDemand input.size count out.size count]
  | .inverseComplex count input out =>
    config.countDemands count .inverse ++ [sizeDemand input.size count out.size count]
  | .process sense input out =>
    config.countDemands config.maxCount sense ++
      [sizeDemand input.size config.maxCount out.size config.maxCount]
  | .forwardReal count input out =>
    config.realDemands count .forward ++ [sizeDemand input.size count out.size (count / 2 + 1)]
  | .inverseReal count input output =>
    config.realDemands count .inverse ++ [sizeDemand input.size (count / 2 + 1) output.size count]
  | .inverseRealWith count input ws =>
    config.realDemands count .inverse ++
      [sizeDemand input.size (count / 2 + 1) ws.output.size count,
        ⟨count / 2 + 1 ≤ ws.scratch.size, .bufferTooSmall (count / 2 + 1)⟩]

theorem firstUnmet_sizeDemand {input inputNeed output outputNeed : Nat} {rest : List Demand} :
    Demand.firstUnmet (sizeDemand input inputNeed output outputNeed :: rest) =
      (lengthRefusal? input inputNeed output outputNeed).or (Demand.firstUnmet rest) := by
  by_cases h : inputNeed ≤ input ∧ outputNeed ≤ output
  · rw [Demand.firstUnmet_of_met h, lengthRefusal?_eq_none_iff.2 h, Option.none_or]
  · rw [Demand.firstUnmet_of_not_met h, lengthRefusal?, if_pos (by omega)]
    rfl

theorem firstUnmet_scratch {scratch need : Nat} :
    Demand.firstUnmet [⟨need ≤ scratch, .bufferTooSmall need⟩] = scratchRefusal? scratch need := by
  by_cases h : need ≤ scratch
  · rw [Demand.firstUnmet_of_met h, scratchRefusal?_eq_none_iff.2 h]
    rfl
  · rw [Demand.firstUnmet_of_not_met h, scratchRefusal?, if_pos (Nat.not_le.1 h)]

theorem Reply.isAccepted_iff {β : Type} {r : Reply β} :
    r.isAccepted = true ↔ r.refusal = none := by
  rw [isAccepted, Option.isNone_iff_eq_none]

namespace Context

open Demand (firstUnmet)

section Refusals

variable {ctx : Context α} {count : Nat} {sense : Sense}

theorem refusal?_eq_firstUnmet :
    ctx.refusal? count sense = firstUnmet (ctx.config.countDemands count sense) := by
  have hpow : Word.isPowerOfTwo count = true ↔ count.isPowerOfTwo := Word.isPowerOfTwo_iff
  simp only [refusal?, Config.countDemands, firstUnmet, ← hpow, maxCount]
  grind

theorem realRefusal?_eq_firstUnmet :
    ctx.realRefusal? count sense = firstUnmet (ctx.config.realDemands count sense) := by
  rw [realRefusal?, refusal?_eq_firstUnmet]
  rfl

end Refusals

theorem refusal_inverseReal_ne {config : Config} {count required : Nat}
    {input : Array (Cplx α)} {output : Array α} :
    firstUnmet ((Call.inverseReal count input output).demands config) ≠
      some (.bufferTooSmall required) := by
  intro h
  obtain ⟨d, hd, hcause⟩ := Demand.cause_mem_of_firstUnmet h
  simp only [Call.demands, Config.realDemands, Config.countDemands, sizeDemand, List.cons_append,
    List.nil_append, List.mem_cons, List.not_mem_nil, or_false] at hd
  rcases hd with rfl | rfl | rfl | rfl | rfl <;> cases hcause

variable [Scalar α] [UnitRoots α]

section Replies

variable {ctx : Context α} {count : Nat}

theorem refusal_complexReply (sense : Sense) (input out : Array (Cplx α)) :
    (ctx.complexReply sense count input out).refusal =
      firstUnmet (ctx.config.countDemands count sense ++
        [sizeDemand input.size count out.size count]) := by
  rw [Demand.firstUnmet_append, ← refusal?_eq_firstUnmet, firstUnmet_sizeDemand, complexReply,
    Reply.refusal_guarded, Reply.refusal_guarded]
  rfl

theorem refusal_forwardReply (input : Array α) (out : Array (Cplx α)) :
    (ctx.forwardReply count input out).refusal =
      firstUnmet (ctx.config.realDemands count .forward ++
        [sizeDemand input.size count out.size (count / 2 + 1)]) := by
  rw [Demand.firstUnmet_append, ← realRefusal?_eq_firstUnmet, firstUnmet_sizeDemand, forwardReply,
    Reply.refusal_guarded, Reply.refusal_guarded]
  rfl

theorem refusal_inverseReply (input : Array (Cplx α)) (ws : Workspace α) :
    (ctx.inverseReply count input ws).refusal =
      firstUnmet (ctx.config.realDemands count .inverse ++
        [sizeDemand input.size (count / 2 + 1) ws.output.size count,
          ⟨count / 2 + 1 ≤ ws.scratch.size, .bufferTooSmall (count / 2 + 1)⟩]) := by
  rw [Demand.firstUnmet_append, ← realRefusal?_eq_firstUnmet, firstUnmet_sizeDemand,
    firstUnmet_scratch]
  simp only [inverseReply, synthesisReply, Reply.refusal_guarded]
  rw [Reply.accepted, Option.or_none]

theorem Sound.refusal_inverseReply_own {scratch : Array (Cplx α)} (h : ctx.Sound)
    (hs : ctx.scratch = .ok scratch) (input : Array (Cplx α)) (output : Array α) :
    (ctx.inverseReply count input ⟨output, scratch⟩).refusal =
      firstUnmet (ctx.config.realDemands count .inverse ++
        [sizeDemand input.size (count / 2 + 1) output.size count]) := by
  rw [refusal_inverseReply, Demand.firstUnmet_append, Demand.firstUnmet_append,
    ← realRefusal?_eq_firstUnmet]
  cases hr : ctx.realRefusal? count .inverse with
  | some cause => rfl
  | none =>
      -- the layout reserved scratch for the largest count, and this one is not larger
      obtain ⟨scratch', hs', hserves⟩ := h.scratch_serves hr
      rw [hs] at hs'
      cases hs'
      rw [firstUnmet_sizeDemand, firstUnmet_sizeDemand, Demand.firstUnmet_of_met hserves]

end Replies

theorem Sound.refusal_answer {ctx : Context α} {scratch : Array (Cplx α)} (h : ctx.Sound)
    (hs : ctx.scratch = .ok scratch) (call : Call α) :
    (ctx.answer scratch call).1.refusal = firstUnmet (call.demands ctx.config) := by
  cases call with
  | forwardComplex count input out => exact refusal_complexReply .forward input out
  | inverseComplex count input out => exact refusal_complexReply .inverse input out
  | process sense input out => exact refusal_complexReply sense input out
  | forwardReal count input out => exact refusal_forwardReply input out
  | inverseReal count input output => exact h.refusal_inverseReply_own hs input output
  | inverseRealWith count input ws => exact refusal_inverseReply input ws

theorem refusals_exact {ctx : Context α} (h : ctx.Reachable) (call : Call α) :
    ∃ after reply, ctx.perform call = .ok (after, reply) ∧
      (reply.isAccepted = true ↔ ∀ d ∈ call.demands ctx.config, d.met) ∧
      reply.refusal = firstUnmet (call.demands ctx.config) ∧
      (reply.isAccepted = false → reply.after = call.before ∧ after = ctx) ∧
      ∀ count input output required, call = .inverseReal count input output →
        reply.refusal ≠ some (.bufferTooSmall required) := by
  obtain ⟨scratch, hs, -⟩ := h.sound.scratch_eq
  have hrefusal := h.sound.refusal_answer hs call
  refine ⟨_, _, h.sound.perform_rows hs call, ?_, hrefusal, ?_, ?_⟩
  · rw [Reply.isAccepted_iff, hrefusal, Demand.firstUnmet_eq_none_iff]
  · intro hrefused
    obtain ⟨hafter, hscratch⟩ := answer_of_refused hrefused
    exact ⟨hafter, by rw [hscratch, h.sound.withRows_self hs]⟩
  · rintro count input output required rfl
    rw [hrefusal]
    exact refusal_inverseReal_ne

theorem refusals_exact_sixteen :
    let ctx : Context Float32 := built ⟨16, .inverse, true, true⟩ ⟨16, 9⟩ (.fresh 25)
    let bins : Array (Cplx Float32) := Array.replicate 5 ⟨1, 0⟩
    let ws : Workspace Float32 := ⟨Array.replicate 8 0, Array.replicate 4 ⟨2, 3⟩⟩
    ctx.Reachable ∧ ∃ after reply, ctx.perform (.inverseRealWith 8 bins ws) = .ok (after, reply) ∧
      reply.refusal = some (.bufferTooSmall 5) ∧ reply.after = .workspace ws ∧ after = ctx := by
  intro ctx bins ws
  have hl : ctx.config.layout = .ok ⟨16, 9⟩ := by decide
  have h : ctx.Reachable := reachable_fresh hl (by decide)
  obtain ⟨after, reply, hperform, -, hrefusal, hunchanged, -⟩ :=
    refusals_exact h (.inverseRealWith 8 bins ws)
  have hcause : reply.refusal = some (.bufferTooSmall 5) := by
    rw [hrefusal]
    rfl
  have hrefused : reply.isAccepted = false := by
    rw [Reply.isAccepted, hcause]
    rfl
  obtain ⟨hafter, hctx⟩ := hunchanged hrefused
  exact ⟨h, after, reply, hperform, hcause, hafter, hctx⟩

end Context

end DyadicFourier
