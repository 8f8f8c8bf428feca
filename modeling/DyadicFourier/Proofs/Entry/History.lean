import DyadicFourier.Proofs.Entry.Retention

namespace DyadicFourier

variable {α : Type}

namespace Entry

/-- An outcome as its caller sees it, who does not look into the context. -/
structure Sight (α : Type) where
  accepted : Bool
  output : Array α
  scratch : Option (Array (Cplx α))
  slot : Option Nat
  events : List Event
  deriving DecidableEq, Repr

def Outcome.sight (o : Outcome (InverseArgs α)) : Sight α :=
  ⟨o.accepted, o.after.output, o.after.scratch, o.after.slot, o.events⟩

theorem withCount_alike {β : Type} {s t : Context α} {count : Int32} {out : β}
    {run : Context α → Nat → Checked (Reply β)} (hrun : ∀ n, run s n = run t n)
    (hok : ∀ n, ∃ reply, run s n = .ok reply) :
    ∃ o, withCount (some s) count out run = .ok o ∧ withCount (some t) count out run = .ok o := by
  have hctx : ∀ c ∈ some s, ∀ n, ∃ reply, run c n = .ok reply := by
    rintro c ⟨⟩
    exact hok
  obtain ⟨o, ho⟩ : ∃ o, withCount (some s) count out run = .ok o := withCount_exists hctx
  refine ⟨o, ho, ?_⟩
  simpa only [withCount, hrun] using ho

end Entry

variable [Scalar α] [UnitRoots α]

namespace Context

theorem replies_congr {s t : Context α} (h : s.config = t.config) :
    s.complexReply = t.complexReply ∧ s.forwardReply = t.forwardReply ∧
      s.inverseReply = t.inverseReply := by
  obtain ⟨_, _, _, _⟩ := s
  obtain ⟨_, _, _, _⟩ := t
  cases h
  exact ⟨rfl, rfl, rfl⟩

structure Alike (s t : Context α) : Prop where
  left : s.Sound
  right : t.Sound
  config_eq : s.config = t.config

namespace Alike

variable {s t : Context α}

theorem layout_eq (h : s.Alike t) : s.layout = t.layout := by
  have hs := h.left.layout_eq
  rw [h.config_eq] at hs
  exact Except.ok.inj (hs.symm.trans h.right.layout_eq)

theorem exists_scratch (h : s.Alike t) : ∃ scratch scratch' : Array (Cplx α),
    s.scratch = .ok scratch ∧ t.scratch = .ok scratch' ∧ scratch.size = scratch'.size := by
  obtain ⟨scratch, hscratch, hsize⟩ := h.left.scratch_eq
  obtain ⟨scratch', hscratch', hsize'⟩ := h.right.scratch_eq
  exact ⟨scratch, scratch', hscratch, hscratch', by rw [hsize, hsize', h.layout_eq]⟩

theorem run (h : s.Alike t) (past past' : List (Call α)) :
    ∃ s₁ t₁ replies replies', s.run past = .ok (s₁, replies) ∧ t.run past' = .ok (t₁, replies') ∧
      s₁.Alike t₁ := by
  obtain ⟨scratch, scratch', hscratch, hscratch', -⟩ := h.exists_scratch
  obtain ⟨s₁, hs, hsound, hconfig, -⟩ := h.left.run_eq hscratch past
  obtain ⟨t₁, ht, hsound', hconfig', -⟩ := h.right.run_eq hscratch' past'
  exact ⟨s₁, t₁, _, _, hs, ht, hsound, hsound', hconfig.trans (h.config_eq.trans hconfig'.symm)⟩

theorem perform (h : s.Alike t) (call : Call α) :
    ∃ s₁ t₁ reply, s.perform call = .ok (s₁, reply) ∧ t.perform call = .ok (t₁, reply) := by
  obtain ⟨scratch, scratch', hscratch, hscratch', hsize⟩ := h.exists_scratch
  obtain ⟨s₁, hs, -⟩ := h.left.perform_eq hscratch call
  obtain ⟨t₁, ht, -⟩ := h.right.perform_eq hscratch' call
  have hconfig : s.config = { t.config with simd := t.config.simd } := h.config_eq
  rw [answer_congr hconfig, answer_forgets hsize] at hs
  exact ⟨s₁, t₁, _, hs, ht⟩

theorem transformComplex (h : s.Alike t) (sense : Sense) (count : Nat)
    (input out : Array (Cplx α)) :
    s.transformComplex sense count input out = t.transformComplex sense count input out := by
  rw [h.left.transformComplex_eq, h.right.transformComplex_eq, (replies_congr h.config_eq).1]

theorem forwardReal (h : s.Alike t) (count : Nat) (input : Array α) (out : Array (Cplx α)) :
    s.forwardReal count input out = t.forwardReal count input out := by
  rw [h.left.forwardReal_eq, h.right.forwardReal_eq, (replies_congr h.config_eq).2.1]

end Alike

end Context

namespace Entry

variable {s t : Context α}

theorem inverseReal_alike (h : s.Alike t) (count : Int32) (input : Array (Cplx α))
    (output : Array α) (scratch : Option (Array (Cplx α))) (slot : Option Nat) :
    ∃ o o', inverseReal count input ⟨some s, output, scratch, slot⟩ = .ok o ∧
      inverseReal count input ⟨some t, output, scratch, slot⟩ = .ok o' ∧ o.sight = o'.sight := by
  cases hp : isPowerOfTwo count with
  | false => exact ⟨_, _, inverseReal_uncounted hp input _, inverseReal_uncounted hp input _, rfl⟩
  | true =>
      have hreply := (Context.replies_congr h.config_eq).2.2
      rcases scratch with _ | cells
      · rcases slot with _ | available
        · obtain ⟨own, own', hown, hown', hsize⟩ := h.exists_scratch
          refine ⟨_, _, inverseReal_ownReply hp h.left hown input output,
            inverseReal_ownReply hp h.right hown' input output, ?_⟩
          have hsame : (s.inverseReply (word count) input ⟨output, own⟩).map Workspace.output =
              (t.inverseReply (word count) input ⟨output, own'⟩).map Workspace.output := by
            rw [hreply]
            exact Context.inverseReply_forgets fun _ => by rw [hsize]
          exact congrArg (fun r : Reply (Array α) =>
            (⟨r.isAccepted, r.after, none, none, r.events⟩ : Sight α)) hsame
        · exact ⟨_, _, inverseReal_query hp input s output available,
            inverseReal_query hp input t output available, rfl⟩
      · rcases slot with _ | available
        · exact ⟨_, _, inverseReal_slotless count input s output cells,
            inverseReal_slotless count input t output cells, rfl⟩
        · obtain hshort | hbytes := Nat.lt_or_ge available (scratchBytes count)
          · exact ⟨_, _, inverseReal_short hp hshort input s output cells,
              inverseReal_short hp hshort input t output cells, rfl⟩
          · refine ⟨_, _, inverseReal_lentReply hp h.left hbytes input output cells,
              inverseReal_lentReply hp h.right hbytes input output cells, ?_⟩
            rw [hreply]
            rfl

end Entry

namespace Context

/-- No call, of the context itself or through an entry point, tells `s` from `t`. -/
structure AnswersAs (s t : Context α) : Prop where
  perform : ∀ call, ∃ s' t' reply, s.perform call = .ok (s', reply) ∧
    t.perform call = .ok (t', reply)
  forwardComplex : ∀ count input out, ∃ o,
    Entry.forwardComplex (some s) count input out = .ok o ∧
      Entry.forwardComplex (some t) count input out = .ok o
  inverseComplex : ∀ count input out, ∃ o,
    Entry.inverseComplex (some s) count input out = .ok o ∧
      Entry.inverseComplex (some t) count input out = .ok o
  forwardReal : ∀ count input out, ∃ o,
    Entry.forwardReal (some s) count input out = .ok o ∧
      Entry.forwardReal (some t) count input out = .ok o
  inverseReal : ∀ count input output scratch slot, ∃ o o',
    Entry.inverseReal count input ⟨some s, output, scratch, slot⟩ = .ok o ∧
      Entry.inverseReal count input ⟨some t, output, scratch, slot⟩ = .ok o' ∧
      o.sight = o'.sight

theorem Alike.answersAs {s t : Context α} (h : s.Alike t) : s.AnswersAs t where
  perform := h.perform
  forwardComplex _ input out :=
    Entry.withCount_alike (fun n => h.transformComplex .forward n input out)
      fun n => ⟨_, h.left.transformComplex_eq .forward n input out⟩
  inverseComplex _ input out :=
    Entry.withCount_alike (fun n => h.transformComplex .inverse n input out)
      fun n => ⟨_, h.left.transformComplex_eq .inverse n input out⟩
  forwardReal _ input out :=
    Entry.withCount_alike (fun n => h.forwardReal n input out)
      fun n => ⟨_, h.left.forwardReal_eq n input out⟩
  inverseReal := Entry.inverseReal_alike h

theorem Alike.run_answersAs {s t : Context α} (h : s.Alike t) (past past' : List (Call α)) :
    ∃ s₁ t₁ replies replies', s.run past = .ok (s₁, replies) ∧ t.run past' = .ok (t₁, replies') ∧
      s₁.AnswersAs t₁ := by
  obtain ⟨s₁, t₁, replies, replies', hs, ht, hafter⟩ := h.run past past'
  exact ⟨s₁, t₁, replies, replies', hs, ht, hafter.answersAs⟩

theorem replies_forget_history {lent lent' : Option (Array (Cplx α))} {s t : Context α}
    (hs : CreatedIn lent s) (ht : CreatedIn lent' t) (hconfig : s.config = t.config)
    (past past' : List (Call α)) :
    ∃ s₁ t₁ replies replies', s.run past = .ok (s₁, replies) ∧ t.run past' = .ok (t₁, replies') ∧
      s₁.AnswersAs t₁ :=
  Alike.run_answersAs ⟨hs.sound, ht.sound, hconfig⟩ past past'

theorem replies_forget_history_sixteen :
    let config : Config := ⟨16, .both, true, true⟩
    let buffer : Array (Cplx Float32) := Array.replicate 40 ⟨5, 7⟩
    let bins : Array (Cplx Float32) := Array.replicate 9 ⟨1, 0⟩
    let samples : Array Float32 := Array.replicate 16 0
    ∃ s t s₁ t₁ s₂ t₂ replies replies' reply, CreatedIn none s ∧ CreatedIn (some buffer) t ∧
      s.config = config ∧ t.config = config ∧
      s.run [.inverseReal 16 bins samples, .forwardReal 12 samples bins] = .ok (s₁, replies) ∧
      t.run [] = .ok (t₁, replies') ∧
      s₁.perform (.inverseReal 8 bins samples) = .ok (s₂, reply) ∧
      t₁.perform (.inverseReal 8 bins samples) = .ok (t₂, reply) := by
  intro config buffer bins samples
  have hl : config.layout = .ok ⟨16, 9⟩ := by decide
  have hlen : 16 + 9 ≤ buffer.size := by simp [buffer]
  obtain ⟨c, hnew, hc⟩ := new_makes (α := Float32) hl (by decide)
  obtain ⟨c', hnew', hc'⟩ := newIn_makes hl hlen
  have hs : CreatedIn none _ := .direct hnew hc
  have ht : CreatedIn (some buffer) _ := .direct hnew' hc'
  obtain ⟨s₁, t₁, replies, replies', hrun, hrun', hanswers⟩ := replies_forget_history hs ht rfl
    [.inverseReal 16 bins samples, .forwardReal 12 samples bins] []
  obtain ⟨s₂, t₂, reply, hleft, hright⟩ :=
    hanswers.perform (.inverseReal 8 bins samples)
  exact ⟨_, _, s₁, t₁, s₂, t₂, replies, replies', reply, hs, ht, rfl, rfl, hrun, hrun', hleft,
    hright⟩

end Context

end DyadicFourier
