import DyadicFourier.Proofs.Context.Calls
import DyadicFourier.Proofs.Exact.Dft
import DyadicFourier.Proofs.Spectrum.Agreement

namespace DyadicFourier

variable {α : Type}

/-- An entry of a table depends on nothing but the ratio of its index to the length. -/
def UnitRoots.RatioOnly (α : Type) [UnitRoots α] : Prop :=
  ∀ m e k : Nat, k < 2 ^ m → Word.Fits (2 ^ m * 2 ^ e) →
    (root (k * 2 ^ e) (2 ^ m * 2 ^ e) : Cplx α) = root k (2 ^ m)

theorem ratioOnly_real : UnitRoots.RatioOnly ℝ := by
  intro m e k _ _
  have he : (2 : ℝ) ^ e ≠ 0 := pow_ne_zero e two_ne_zero
  have hangle : 2 * Real.pi * ((k * 2 ^ e : ℕ) : ℝ) / ((2 ^ m * 2 ^ e : ℕ) : ℝ) =
      2 * Real.pi * k / ((2 ^ m : ℕ) : ℝ) := by
    push_cast
    rw [← mul_assoc, mul_div_mul_right _ _ he]
  simp only [UnitRoots.root, hangle]

def Call.resolve (maxCount : Nat) : Call α → Call α
  | .process .forward input out => .forwardComplex maxCount input out
  | .process .inverse input out => .inverseComplex maxCount input out
  | call => call

theorem Call.resolve_resolve (m n : Nat) (call : Call α) :
    (call.resolve m).resolve n = call.resolve m := by
  cases call with
  | process sense input out => cases sense <;> rfl
  | _ => rfl

namespace Context

variable [Scalar α] [UnitRoots α] {s t : Context α} {sense : Sense} {count j : Nat}

theorem answer_resolve (ctx : Context α) (scratch : Array (Cplx α)) (call : Call α) :
    ctx.answer scratch (call.resolve ctx.maxCount) = ctx.answer scratch call := by
  cases call with
  | process sense input out => cases sense <;> rfl
  | _ => rfl

theorem Sound.roots_eq_root (hroot : UnitRoots.RatioOnly α) (hs : s.Sound)
    (hr : s.refusal? (2 ^ j) sense = none) {k : Nat} (hk : k < 2 ^ j) :
    s.roots sense (2 ^ j) k = sense.orient (UnitRoots.root k (2 ^ j)) := by
  obtain ⟨e, he, hf⟩ := hs.maxCount_eq hr
  rw [hs.roots_eq hr hk, he, Nat.mul_div_cancel_left _ (Nat.two_pow_pos j), hroot j e k hk hf]

theorem Sound.sameRoots (hroot : UnitRoots.RatioOnly α) (hs : s.Sound) (ht : t.Sound)
    (hrs : s.refusal? (2 ^ j) sense = none) (hrt : t.refusal? (2 ^ j) sense = none) :
    SameRoots j sense (unitTable s.maxCount s.tableSense : Array (Cplx α)) s.tableSense
      (unitTable t.maxCount t.tableSense) t.tableSense := by
  intro i hi k hk
  exact (hs.roots_eq_root hroot (refusal?_shorter hi hrs) hk).trans
    (ht.roots_eq_root hroot (refusal?_shorter hi hrt) hk).symm

theorem Sound.complexReply_agree (hroot : UnitRoots.RatioOnly α) (hs : s.Sound) (ht : t.Sound)
    {input out : Array (Cplx α)} (ha : (s.complexReply sense count input out).isAccepted = true)
    (ha' : (t.complexReply sense count input out).isAccepted = true) :
    s.complexReply sense count input out = t.complexReply sense count input out := by
  obtain ⟨hrs, hin, hout⟩ := isAccepted_complexReply.1 ha
  obtain ⟨hrt, -⟩ := isAccepted_complexReply.1 ha'
  obtain ⟨j, rfl⟩ := exists_eq_two_pow hrs
  rw [complexReply_of_sizes hrs hin hout, complexReply_of_sizes hrt hin hout, roots, roots,
    (hs.sameRoots hroot ht hrs hrt).cascade_eq (Nat.le_refl j)]

theorem Sound.forwardReply_agree (hroot : UnitRoots.RatioOnly α) (hs : s.Sound) (ht : t.Sound)
    {input : Array α} {out : Array (Cplx α)}
    (ha : (s.forwardReply count input out).isAccepted = true)
    (ha' : (t.forwardReply count input out).isAccepted = true) :
    s.forwardReply count input out = t.forwardReply count input out := by
  obtain ⟨hrs, hin, hout⟩ := isAccepted_forwardReply.1 ha
  obtain ⟨hrt, -⟩ := isAccepted_forwardReply.1 ha'
  have hrs' := (realRefusal?_eq_none_iff.1 hrs).2
  obtain ⟨j, rfl⟩ := exists_eq_two_pow hrs'
  rw [forwardReply_of_sizes hrs hin hout, forwardReply_of_sizes hrt hin hout,
    (hs.sameRoots hroot ht hrs' (realRefusal?_eq_none_iff.1 hrt).2).realBins_eq]

theorem Sound.inverseReply_agree (hroot : UnitRoots.RatioOnly α) (hs : s.Sound) (ht : t.Sound)
    {input : Array (Cplx α)} {output : Array α} {scratch scratch' : Array (Cplx α)}
    (ha : (s.inverseReply count input ⟨output, scratch⟩).isAccepted = true)
    (ha' : (t.inverseReply count input ⟨output, scratch'⟩).isAccepted = true) :
    ∃ samples bins bins',
      s.inverseReply count input ⟨output, scratch⟩ = .accepted ⟨samples, bins⟩ ∧
      t.inverseReply count input ⟨output, scratch'⟩ = .accepted ⟨samples, bins'⟩ ∧
      (scratch = scratch' → bins = bins') := by
  obtain ⟨hrs, ⟨hin, hout⟩, hscratch⟩ := isAccepted_inverseReply.1 ha
  obtain ⟨hrt, -, hscratch'⟩ := isAccepted_inverseReply.1 ha'
  have hrs' := (realRefusal?_eq_none_iff.1 hrs).2
  obtain ⟨j, rfl⟩ := exists_eq_two_pow hrs'
  have hroots := hs.sameRoots hroot ht hrs' (realRefusal?_eq_none_iff.1 hrt).2
  have hreply := inverseReply_of_sizes hrs hin hout hscratch
  have hreply' := inverseReply_of_sizes hrt hin hout hscratch'
  rw [← hroots.realSums_eq] at hreply'
  refine ⟨_, _, _, hreply, hreply', ?_⟩
  rintro rfl
  exact hroots.workBins_eq _ _

theorem Sound.answer_agree (hroot : UnitRoots.RatioOnly α) (hs : s.Sound) (ht : t.Sound)
    {scratch scratch' : Array (Cplx α)} {call : Call α} (hcall : ∀ m, call.resolve m = call)
    (ha : (s.answer scratch call).1.isAccepted = true)
    (ha' : (t.answer scratch' call).1.isAccepted = true) :
    (s.answer scratch call).1 = (t.answer scratch' call).1 := by
  cases call with
  | forwardComplex count input out =>
      rw [answer, answer, hs.complexReply_agree hroot ht ha ha']
  | inverseComplex count input out =>
      rw [answer, answer, hs.complexReply_agree hroot ht ha ha']
  | process sense input out =>
      have hself := hcall 0
      cases sense <;> cases hself
  | forwardReal count input out =>
      rw [answer, answer, hs.forwardReply_agree hroot ht ha ha']
  | inverseReal count input output =>
      obtain ⟨samples, bins, bins', h, h', -⟩ := hs.inverseReply_agree hroot ht ha ha'
      simp only [answer, h, h']
      rfl
  | inverseRealWith count input ws =>
      obtain ⟨samples, bins, bins', h, h', hbins⟩ := hs.inverseReply_agree hroot ht ha ha'
      simp only [answer, h, h', hbins rfl]

theorem accepted_replies_agree (hroot : UnitRoots.RatioOnly α) (hs : s.Reachable)
    (ht : t.Reachable) {call call' : Call α}
    (hcall : call.resolve s.maxCount = call'.resolve t.maxCount) :
    ∃ s' t' reply reply', s.perform call = .ok (s', reply) ∧ t.perform call' = .ok (t', reply') ∧
      (reply.isAccepted = true → reply'.isAccepted = true → reply = reply') := by
  obtain ⟨scratch, hscratch, -⟩ := hs.sound.scratch_eq
  obtain ⟨scratch', hscratch', -⟩ := ht.sound.scratch_eq
  obtain ⟨s', hs', -⟩ := hs.sound.perform_eq hscratch call
  obtain ⟨t', ht', -⟩ := ht.sound.perform_eq hscratch' call'
  refine ⟨s', t', _, _, hs', ht', ?_⟩
  rw [← answer_resolve s, ← answer_resolve t, hcall]
  exact hs.sound.answer_agree hroot ht.sound fun m => call'.resolve_resolve _ m

theorem accepted_replies_agree_sixteen :
    let s : Context ℝ := built ⟨16, .inverse, false, false⟩ ⟨16, 0⟩ (.fresh 16)
    let t : Context ℝ := built ⟨32, .both, true, true⟩ ⟨32, 17⟩ (.fresh 49)
    let x : Array (Cplx ℝ) := Array.replicate 16 ⟨1, 2⟩
    ∃ s' t' reply, s.perform (.process .inverse x x) = .ok (s', reply) ∧
      t.perform (.inverseComplex 16 x x) = .ok (t', reply) ∧ reply.isAccepted = true := by
  intro s t x
  have hls : s.config.layout = .ok ⟨16, 0⟩ := by decide
  have hlt : t.config.layout = .ok ⟨32, 17⟩ := by decide
  have hs : s.Reachable := reachable_fresh hls (by decide)
  have ht : t.Reachable := reachable_fresh hlt (by decide)
  have hcall : (Call.process .inverse x x).resolve s.maxCount =
      (Call.inverseComplex 16 x x).resolve t.maxCount := rfl
  obtain ⟨s', t', reply, reply', h, h', hagree⟩ :=
    accepted_replies_agree ratioOnly_real hs ht hcall
  have hsize : 16 ≤ x.size := by simp [x]
  have ha : reply.isAccepted = true := by
    rw [perform, process, hs.sound.transformComplex_eq] at h
    cases h
    exact isAccepted_complexReply.2 ⟨by decide, hsize, hsize⟩
  have ha' : reply'.isAccepted = true := by
    rw [perform, inverseComplex, ht.sound.transformComplex_eq] at h'
    cases h'
    exact isAccepted_complexReply.2 ⟨by decide, hsize, hsize⟩
  cases hagree ha ha'
  exact ⟨s', t', reply, h, h', ha⟩

end Context

end DyadicFourier
