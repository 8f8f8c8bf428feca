import DyadicFourier.Proofs.Context.Calls

namespace DyadicFourier

variable {α : Type}

def Call.before : Call α → Written α
  | .forwardComplex _ _ out => .points out
  | .inverseComplex _ _ out => .points out
  | .process _ _ out => .points out
  | .forwardReal _ _ out => .points out
  | .inverseReal _ _ output => .samples output
  | .inverseRealWith _ _ ws => .workspace ws

namespace Context

variable [Scalar α] [UnitRoots α]

section Replies

variable {ctx : Context α} {count : Nat}

theorem scratch_inverseReply_getElem? {input : Array (Cplx α)} {ws : Workspace α} {i : Nat}
    (hi : count < 2 ∨ count / 2 < i) :
    (ctx.inverseReply count input ws).after.scratch[i]? = ws.scratch[i]? := by
  cases ha : (ctx.inverseReply count input ws).isAccepted with
  | false => rw [atomic_inverseReply ha]
  | true =>
      obtain ⟨hr, ⟨hin, hout⟩, hscratch⟩ := isAccepted_inverseReply.1 ha
      obtain ⟨j, rfl⟩ := exists_eq_two_pow (realRefusal?_eq_none_iff.1 hr).2
      rw [inverseReply_of_sizes hr hin hout hscratch]
      -- the bins are prepared in the rows up to the middle one, and a single sample needs none
      cases j with
      | zero => rfl
      | succ j =>
          have hpos := Nat.two_pow_pos j
          have hdouble : 2 ^ (j + 1) = 2 * 2 ^ j := Nat.pow_succ'
          exact Cells.getElem?_fill_of_ge (by omega)

theorem inverseReply_forgets {input : Array (Cplx α)} {output : Array α}
    {scratch scratch' : Array (Cplx α)}
    (hserves : ctx.realRefusal? count .inverse = none →
      (count / 2 + 1 ≤ scratch.size ↔ count / 2 + 1 ≤ scratch'.size)) :
    (ctx.inverseReply count input ⟨output, scratch⟩).map Workspace.output =
      (ctx.inverseReply count input ⟨output, scratch'⟩).map Workspace.output := by
  -- the samples come from bins that the same call prepares: of the scratch the length is read
  simp only [inverseReply, synthesisReply, Reply.map_guarded]
  cases hr : ctx.realRefusal? count .inverse with
  | some cause => rfl
  | none =>
      have hsame := hserves hr
      simp only [← Nat.not_lt, not_iff_not] at hsame
      simp only [scratchRefusal?, hsame]
      rfl

end Replies

theorem answer_forgets {ctx : Context α} {scratch scratch' : Array (Cplx α)} {call : Call α}
    (hsize : scratch.size = scratch'.size) :
    (ctx.answer scratch call).1 = (ctx.answer scratch' call).1 := by
  cases call with
  | inverseReal count input output =>
      exact congrArg (Reply.map Written.samples) (inverseReply_forgets fun _ => by rw [hsize])
  | _ => rfl

theorem answer_of_refused {ctx : Context α} {scratch : Array (Cplx α)} {call : Call α}
    (h : (ctx.answer scratch call).1.isAccepted = false) :
    (ctx.answer scratch call).1.after = call.before ∧ (ctx.answer scratch call).2 = scratch := by
  cases call with
  | forwardComplex count input out =>
      exact ⟨congrArg Written.points (atomic_complexReply h), rfl⟩
  | inverseComplex count input out =>
      exact ⟨congrArg Written.points (atomic_complexReply h), rfl⟩
  | process sense input out =>
      exact ⟨congrArg Written.points (atomic_complexReply h), rfl⟩
  | forwardReal count input out =>
      exact ⟨congrArg Written.points (atomic_forwardReply h), rfl⟩
  | inverseReal count input output =>
      have hsame := atomic_inverseReply h
      exact ⟨congrArg (fun ws : Workspace α => Written.samples ws.output) hsame,
        congrArg Workspace.scratch hsame⟩
  | inverseRealWith count input ws =>
      exact ⟨congrArg Written.workspace (atomic_inverseReply h), rfl⟩

end Context

end DyadicFourier
