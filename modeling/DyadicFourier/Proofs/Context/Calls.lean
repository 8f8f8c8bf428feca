import DyadicFourier.Proofs.Context.Replies

namespace DyadicFourier

variable {α : Type}

inductive Call (α : Type) where
  | forwardComplex (count : Nat) (input out : Array (Cplx α))
  | inverseComplex (count : Nat) (input out : Array (Cplx α))
  | process (sense : Sense) (input out : Array (Cplx α))
  | forwardReal (count : Nat) (input : Array α) (out : Array (Cplx α))
  | inverseReal (count : Nat) (input : Array (Cplx α)) (output : Array α)
  | inverseRealWith (count : Nat) (input : Array (Cplx α)) (ws : Workspace α)
  deriving DecidableEq, Repr

inductive Written (α : Type) where
  | points (cells : Array (Cplx α))
  | samples (cells : Array α)
  | workspace (ws : Workspace α)
  deriving DecidableEq, Repr

namespace Context

section Runs

variable [Scalar α]

def perform (ctx : Context α) : Call α → Checked (Context α × Reply (Written α))
  | .forwardComplex count input out => do
    return (ctx, (← ctx.forwardComplex count input out).map .points)
  | .inverseComplex count input out => do
    return (ctx, (← ctx.inverseComplex count input out).map .points)
  | .process sense input out => do
    return (ctx, (← ctx.process sense input out).map .points)
  | .forwardReal count input out => do
    return (ctx, (← ctx.forwardReal count input out).map .points)
  | .inverseReal count input output => do
    let reply ← ctx.inverseReal count input output
    return (reply.after.1, reply.map fun after => .samples after.2)
  | .inverseRealWith count input ws => do
    return (ctx, (← ctx.inverseRealWith count input ws).map .workspace)

def run (ctx : Context α) : List (Call α) → Checked (Context α × List (Reply (Written α)))
  | [] => return (ctx, [])
  | call :: calls => do
    let (ctx, reply) ← ctx.perform call
    let (ctx, replies) ← ctx.run calls
    return (ctx, reply :: replies)

def createIn [UnitRoots α] (lent : Option (Array (Cplx α))) (config : Config) :
    Checked (Creation α) :=
  match lent with
  | none => Context.new config
  | some buffer => Context.newIn config buffer

end Runs

section Answers

variable [Scalar α] [UnitRoots α]

def answer (ctx : Context α) (scratch : Array (Cplx α)) :
    Call α → Reply (Written α) × Array (Cplx α)
  | .forwardComplex count input out =>
    ((ctx.complexReply .forward count input out).map .points, scratch)
  | .inverseComplex count input out =>
    ((ctx.complexReply .inverse count input out).map .points, scratch)
  | .process sense input out =>
    ((ctx.complexReply sense ctx.maxCount input out).map .points, scratch)
  | .forwardReal count input out => ((ctx.forwardReply count input out).map .points, scratch)
  | .inverseReal count input output =>
    let reply := ctx.inverseReply count input ⟨output, scratch⟩
    (reply.map fun ws => .samples ws.output, reply.after.scratch)
  | .inverseRealWith count input ws =>
    ((ctx.inverseReply count input ws).map .workspace, scratch)

def answers (ctx : Context α) (scratch : Array (Cplx α)) :
    List (Call α) → List (Reply (Written α)) × Array (Cplx α)
  | [] => ([], scratch)
  | call :: calls =>
    let first := ctx.answer scratch call
    let rest := ctx.answers first.2 calls
    (first.1 :: rest.1, rest.2)

theorem answer_congr {s t : Context α} {simd : Bool}
    (h : t.config = { s.config with simd }) (scratch : Array (Cplx α)) (call : Call α) :
    t.answer scratch call = s.answer scratch call := by
  obtain ⟨⟨maxCount, direction, real, _⟩, _, _, _⟩ := s
  obtain ⟨_, _, _, _⟩ := t
  cases h
  cases call <;> rfl

theorem answers_congr {s t : Context α} {simd : Bool} (h : t.config = { s.config with simd })
    (scratch : Array (Cplx α)) (calls : List (Call α)) :
    t.answers scratch calls = s.answers scratch calls := by
  induction calls generalizing scratch with
  | nil => rfl
  | cons call calls ih => simp only [answers, answer_congr h, ih]

theorem size_answer (ctx : Context α) (scratch : Array (Cplx α)) (call : Call α) :
    (ctx.answer scratch call).2.size = scratch.size := by
  cases call with
  | inverseReal count input output => exact ctx.scratch_inverseReply count input ⟨output, scratch⟩
  | _ => rfl

theorem size_answers (ctx : Context α) (scratch : Array (Cplx α)) (calls : List (Call α)) :
    (ctx.answers scratch calls).2.size = scratch.size := by
  induction calls generalizing scratch with
  | nil => rfl
  | cons call calls ih => exact (ih _).trans (ctx.size_answer scratch call)

namespace Sound

variable {ctx : Context α} {scratch : Array (Cplx α)}

theorem perform_rows (h : ctx.Sound) (hs : ctx.scratch = .ok scratch) (call : Call α) :
    ctx.perform call =
      .ok (ctx.withRows (ctx.answer scratch call).2, (ctx.answer scratch call).1) := by
  cases call with
  | forwardComplex count input out =>
      rw [perform, forwardComplex, h.transformComplex_eq, answer, h.withRows_self hs]
      rfl
  | inverseComplex count input out =>
      rw [perform, inverseComplex, h.transformComplex_eq, answer, h.withRows_self hs]
      rfl
  | process sense input out =>
      rw [perform, process, h.transformComplex_eq, answer, h.withRows_self hs]
      rfl
  | forwardReal count input out =>
      rw [perform, h.forwardReal_eq, answer, h.withRows_self hs]
      rfl
  | inverseReal count input output =>
      rw [perform, h.inverseReal_rows hs]
      rfl
  | inverseRealWith count input ws =>
      rw [perform, h.inverseRealWith_eq, answer, h.withRows_self hs]
      rfl

theorem run_rows (h : ctx.Sound) (hs : ctx.scratch = .ok scratch) (calls : List (Call α)) :
    ctx.run calls =
      .ok (ctx.withRows (ctx.answers scratch calls).2, (ctx.answers scratch calls).1) := by
  induction calls generalizing ctx scratch with
  | nil =>
      rw [run, answers, h.withRows_self hs]
      rfl
  | cons call calls ih =>
      have hsize := (ctx.size_answer scratch call).trans (h.size_scratch hs)
      have hrest := ih (h.sound_withRows hsize) (h.scratch_withRows hsize)
      -- the rest of the calls are answered as by the context itself, from the scratch left to them
      have hsame : (ctx.withRows (ctx.answer scratch call).2).config =
          { ctx.config with simd := ctx.config.simd } := ctx.config_withRows _
      rw [answers_congr hsame, withRows_withRows] at hrest
      rw [run, h.perform_rows hs, ok_bind]
      simp only [hrest, ok_bind]
      rfl

theorem perform_eq (h : ctx.Sound) (hs : ctx.scratch = .ok scratch) (call : Call α) :
    ∃ after, ctx.perform call = .ok (after, (ctx.answer scratch call).1) ∧
      after.Sound ∧ after.config = ctx.config ∧
      after.scratch = .ok (ctx.answer scratch call).2 := by
  have hsize := (ctx.size_answer scratch call).trans (h.size_scratch hs)
  exact ⟨_, h.perform_rows hs call, h.sound_withRows hsize, rfl, h.scratch_withRows hsize⟩

theorem run_eq (h : ctx.Sound) (hs : ctx.scratch = .ok scratch) (calls : List (Call α)) :
    ∃ after, ctx.run calls = .ok (after, (ctx.answers scratch calls).1) ∧
      after.Sound ∧ after.config = ctx.config ∧
      after.scratch = .ok (ctx.answers scratch calls).2 := by
  have hsize := (ctx.size_answers scratch calls).trans (h.size_scratch hs)
  exact ⟨_, h.run_rows hs calls, h.sound_withRows hsize, rfl, h.scratch_withRows hsize⟩

end Sound

section Reach

variable {ctx after : Context α}

theorem Reachable.perform (h : ctx.Reachable) {call : Call α} {reply : Reply (Written α)}
    (hcall : ctx.perform call = .ok (after, reply)) : after.Reachable := by
  cases call with
  | inverseReal count input output =>
      obtain ⟨r, hr, hret⟩ := bind_eq_ok_iff.1 hcall
      cases hret
      exact .inverseReal h hr
  | _ =>
      obtain ⟨r, -, hret⟩ := bind_eq_ok_iff.1 hcall
      cases hret
      exact h

theorem Reachable.run (h : ctx.Reachable) {calls : List (Call α)}
    {replies : List (Reply (Written α))} (hrun : ctx.run calls = .ok (after, replies)) :
    after.Reachable := by
  induction calls generalizing ctx replies with
  | nil =>
      cases hrun
      exact h
  | cons call calls ih =>
      obtain ⟨⟨mid, reply⟩, hmid, hrest⟩ := bind_eq_ok_iff.1 hrun
      obtain ⟨⟨last, rest⟩, hlast, hret⟩ := bind_eq_ok_iff.1 hrest
      cases hret
      exact ih (h.perform hmid) hlast

end Reach

theorem createIn_sound {lent : Option (Array (Cplx α))} {config : Config} {c : Creation α}
    {ctx : Context α} (h : createIn lent config = .ok c) (hc : c.context = .ok ctx) :
    ctx.Sound := by
  cases lent with
  | none => exact (Reachable.new h hc).sound
  | some buffer => exact (Reachable.newIn h hc).sound

theorem createIn_simd {lent : Option (Array (Cplx α))} {config : Config} {c : Creation α}
    {ctx : Context α} (h : createIn lent config = .ok c) (hc : c.context = .ok ctx)
    (simd : Bool) : ∃ c' ctx', createIn lent { config with simd } = .ok c' ∧
      c'.context = .ok ctx' ∧ ctx'.config = { ctx.config with simd } ∧
      ctx'.scratch = ctx.scratch := by
  cases lent with
  | none =>
      obtain ⟨layout, hl, hcap, rfl⟩ := new_inv h hc
      obtain ⟨c', h', hc'⟩ : ∃ c' : Creation α, Context.new { config with simd } = .ok c' ∧ _ :=
        new_makes hl hcap
      exact ⟨c', _, h', hc', rfl, rfl⟩
  | some buffer =>
      obtain ⟨layout, hl, hlen, rfl⟩ := newIn_inv h hc
      obtain ⟨c', h', hc'⟩ : ∃ c', Context.newIn { config with simd } buffer = .ok c' ∧ _ :=
        newIn_makes hl hlen
      exact ⟨c', _, h', hc', rfl, rfl⟩

theorem kernels_agree :
    (∀ (lent : Option (Array (Cplx α))) (config : Config) (c : Creation α) (ctx : Context α),
      createIn lent { config with simd := true } = .ok c → c.context = .ok ctx →
      ∃ c' ctx', createIn lent { config with simd := false } = .ok c' ∧ c'.context = .ok ctx' ∧
        ∀ calls : List (Call α), ∃ after after' replies scratch,
          ctx.run calls = .ok (after, replies) ∧ ctx'.run calls = .ok (after', replies) ∧
          after.scratch = .ok scratch ∧ after'.scratch = .ok scratch) ∧
    ∀ (tw : Twiddles α) (stride n : Nat) (cells : Array (Cplx α)), tw.InRange stride n →
      cells.size = 4 * n → ∃ out, Kernel.lanes.combine tw stride cells = .ok out ∧
        Kernel.rows.combine tw stride cells = .ok out := by
  constructor
  · intro lent config c ctx h hc
    obtain ⟨c', ctx', h', hc', hconfig, hsame⟩ := createIn_simd h hc false
    refine ⟨c', ctx', h', hc', fun calls => ?_⟩
    have hsound := createIn_sound h hc
    obtain ⟨scratch, hs, _⟩ := hsound.scratch_eq
    obtain ⟨after, hrun, _, _, hafter⟩ := hsound.run_eq hs calls
    obtain ⟨after', hrun', _, _, hafter'⟩ :=
      (createIn_sound h' hc').run_eq (hsame.trans hs) calls
    rw [answers_congr hconfig] at hrun' hafter'
    exact ⟨after, after', _, _, hrun, hrun', hafter, hafter'⟩
  · intro tw stride n cells hrange hsize
    obtain ⟨out, hout⟩ := Kernel.exists_combine_eq hrange hsize
    exact ⟨out, hout .lanes, hout .rows⟩

end Answers

theorem kernels_agree_sixteen :
    (∃ (c c' : Creation Float32) (ctx ctx' : Context Float32),
      createIn none ⟨16, .both, true, true⟩ = .ok c ∧ c.context = .ok ctx ∧
      createIn none ⟨16, .both, true, false⟩ = .ok c' ∧ c'.context = .ok ctx' ∧
      ∀ calls : List (Call Float32), ∃ after after' replies scratch,
        ctx.run calls = .ok (after, replies) ∧ ctx'.run calls = .ok (after', replies) ∧
        after.scratch = .ok scratch ∧ after'.scratch = .ok scratch) ∧
    ∃ out, Kernel.lanes.combine ⟨Array.replicate 32 (⟨2, 3⟩ : Cplx Float32), 1, true, .forward⟩ 1
        (Array.replicate 20 ⟨5, 7⟩) = .ok out ∧
      Kernel.rows.combine ⟨Array.replicate 32 ⟨2, 3⟩, 1, true, .forward⟩ 1
        (Array.replicate 20 ⟨5, 7⟩) = .ok out := by
  obtain ⟨hcontexts, hcombine⟩ := @kernels_agree Float32 _ _
  constructor
  · have hl : Config.layout ⟨16, .both, true, true⟩ = .ok ⟨16, 9⟩ := by decide
    obtain ⟨c, h, hc⟩ := new_makes (α := Float32) hl (by decide)
    obtain ⟨c', ctx', h', hc', hcalls⟩ := hcontexts none ⟨16, .both, true, true⟩ c _ h hc
    exact ⟨c, c', _, ctx', h, hc, h', hc', hcalls⟩
  · refine hcombine _ 1 5 _ ⟨by decide, ?_, by decide, ?_⟩ (by simp)
    · simp only [Array.size_replicate]
      decide
    · simp only [Array.size_replicate]
      decide

end Context

end DyadicFourier
