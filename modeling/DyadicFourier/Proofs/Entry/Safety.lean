import DyadicFourier.Proofs.Context.Calls
import DyadicFourier.Proofs.Entry.Protocol
import DyadicFourier.Proofs.Transform.Descent

namespace DyadicFourier

theorem Word.plus_scratchLen {count : Nat} (h : Word.Fits count) :
    Word.plus (count / 2) 1 = .ok (Context.inverseRealScratchLen count) := by
  have hlimit : limit = 2 ^ 64 := rfl
  rw [Fits] at h
  apply plus_of_fits
  rw [Fits]
  omega

namespace Entry

variable {α : Type} {count : Int32}

theorem withCount_exists {β : Type} {ctx : Option (Context α)} {out : β}
    {run : Context α → Nat → Checked (Reply β)}
    (h : ∀ c ∈ ctx, ∀ n, ∃ reply, run c n = .ok reply) :
    ∃ outcome, withCount ctx count out run = .ok outcome := by
  cases ctx with
  | none => exact ⟨_, rfl⟩
  | some c =>
      obtain ⟨reply, hreply⟩ := h c rfl (word count)
      simp only [withCount, hreply]
      split
      · exact ⟨_, rfl⟩
      · exact ⟨_, rfl⟩

theorem context_ofCreation {slot : Option Nat} {creation : Creation α} {c : Context α} :
    (Created.ofCreation slot creation).context = some c ↔ creation.context = .ok c := by
  cases h : creation.context <;> simp [Created.ofCreation, Except.toOption, h]

variable [Scalar α] [UnitRoots α]

theorem inverseReal_exists {args : InverseArgs α} (h : ∀ c ∈ args.context, c.Reachable)
    (input : Array (Cplx α)) : ∃ outcome, inverseReal count input args = .ok outcome ∧
      ∀ c ∈ outcome.after.context, c.Reachable := by
  obtain ⟨_ | ctx, output, scratch, slot⟩ := args
  · exact ⟨_, inverseReal_absent count input output scratch slot, h⟩
  cases hp : isPowerOfTwo count with
  | false => exact ⟨_, inverseReal_uncounted hp input _, h⟩
  | true =>
      have hreach := h ctx rfl
      match scratch, slot with
      | none, some available => exact ⟨_, inverseReal_query hp input ctx output available, h⟩
      | some cells, none => exact ⟨_, inverseReal_slotless count input ctx output cells, h⟩
      | some cells, some available =>
          obtain hshort | hbytes := Nat.lt_or_ge available (scratchBytes count)
          · exact ⟨_, inverseReal_short hp hshort input ctx output cells, h⟩
          · exact ⟨_, inverseReal_lentReply hp hreach.sound hbytes input output cells, h⟩
      | none, none =>
          obtain ⟨own, hown, -⟩ := hreach.sound.scratch_eq
          refine ⟨_, inverseReal_ownReply hp hreach.sound hown input output, ?_⟩
          rintro c ⟨⟩
          exact .inverseReal hreach (hreach.sound.inverseReal_rows hown (word count) input output)

theorem create_cases (maxCount : Int32) (direction : Direction) (real : Bool)
    (buffer : Option (Array (Cplx α))) (slot : Option Nat) :
    (∃ slot' events,
      create maxCount direction real buffer slot = .ok (.nothing buffer slot' events)) ∨
    isPowerOfTwo maxCount = true ∧ create maxCount direction real buffer slot = (do
      let creation ← Context.createIn buffer { maxCount := word maxCount, direction, real }
      return .ofCreation slot creation) := by
  by_cases hp : isPowerOfTwo maxCount = true
  · rw [create, if_pos hp]
    dsimp only
    cases Config.requiredBytes { maxCount := word maxCount, direction, real } with
    | error cause => exact .inl ⟨_, _, rfl⟩
    | ok required =>
        match buffer, slot with
        | some _, none => exact .inl ⟨_, _, rfl⟩
        | none, some _ => exact .inl ⟨_, _, rfl⟩
        | some cells, some available =>
            by_cases hshort : available < required ∨ cells.size * pointBytes < required
            · exact .inl ⟨_, _, if_pos hshort⟩
            · exact .inr ⟨hp, if_neg hshort⟩
        | none, none => exact .inr ⟨hp, rfl⟩
  · exact .inl ⟨_, _, if_neg hp⟩

theorem create_inv {maxCount : Int32} {direction : Direction} {real : Bool}
    {buffer : Option (Array (Cplx α))} {slot : Option Nat} {created : Created α} {c : Context α}
    (h : create maxCount direction real buffer slot = .ok created)
    (hc : created.context = some c) : ∃ creation : Creation α, creation.context = .ok c ∧
      Context.createIn buffer { maxCount := word maxCount, direction, real } = .ok creation := by
  obtain ⟨slot', events, hnothing⟩ | ⟨-, hpassed⟩ :=
    create_cases maxCount direction real buffer slot
  · cases h.symm.trans hnothing
    cases hc
  · rw [hpassed] at h
    obtain ⟨creation, hcreation, hret⟩ := bind_eq_ok_iff.1 h
    cases hret
    exact ⟨creation, context_ofCreation.1 hc, hcreation⟩

theorem create_reachable {maxCount : Int32} {direction : Direction} {real : Bool}
    {buffer : Option (Array (Cplx α))} {slot : Option Nat} {created : Created α} {c : Context α}
    (h : create maxCount direction real buffer slot = .ok created)
    (hc : created.context = some c) : c.Reachable := by
  obtain ⟨creation, hcontext, hcreation⟩ := create_inv h hc
  cases buffer with
  | none => exact .new hcreation hcontext
  | some cells => exact .newIn hcreation hcontext

end Entry

variable {α : Type} [Scalar α] [UnitRoots α]

theorem calls_never_fault :
    (∀ ctx : Context α, ctx.Reachable → ∀ calls, ∃ after replies,
      ctx.run calls = .ok (after, replies) ∧ after.Reachable) ∧
    (∀ ctx : Option (Context α), (∀ c ∈ ctx, c.Reachable) → ∀ count : Int32,
      (∀ input out, ∃ outcome, Entry.forwardComplex ctx count input out = .ok outcome) ∧
      (∀ input out, ∃ outcome, Entry.inverseComplex ctx count input out = .ok outcome) ∧
      (∀ input out, ∃ outcome, Entry.forwardReal ctx count input out = .ok outcome) ∧
      ∀ input output scratch slot, ∃ outcome,
        Entry.inverseReal count input ⟨ctx, output, scratch, slot⟩ = .ok outcome ∧
          ∀ c ∈ outcome.after.context, c.Reachable) ∧
    (∀ maxCount direction real buffer slot (created : Entry.Created α) c,
      Entry.create maxCount direction real buffer slot = .ok created →
      created.context = some c → c.Reachable) ∧
    (∀ kernel (tw : Twiddles α) input offset stride out after,
      transform kernel tw input offset stride out = .ok after →
      ∀ l, Descends out.size l → Splittable l) ∧
    ∀ count, Word.Fits count →
      Word.plus (count / 2) 1 = .ok (Context.inverseRealScratchLen count) := by
  refine ⟨fun ctx h calls => ?_, fun ctx h count => ⟨?_, ?_, ?_, ?_⟩, ?_, ?_, ?_⟩
  · obtain ⟨scratch, hscratch, -⟩ := h.sound.scratch_eq
    obtain ⟨after, hrun, -⟩ := h.sound.run_eq hscratch calls
    exact ⟨after, _, hrun, h.run hrun⟩
  · intro input out
    exact Entry.withCount_exists fun c hc n => ⟨_, (h c hc).sound.transformComplex_eq _ n input out⟩
  · intro input out
    exact Entry.withCount_exists fun c hc n => ⟨_, (h c hc).sound.transformComplex_eq _ n input out⟩
  · intro input out
    exact Entry.withCount_exists fun c hc n => ⟨_, (h c hc).sound.forwardReal_eq n input out⟩
  · intro input output scratch slot
    exact Entry.inverseReal_exists h input
  · intro maxCount direction real buffer slot created c
    exact Entry.create_reachable
  · intro kernel tw input offset stride out after h l hl
    exact hl.splittable rfl h
  · intro count
    exact Word.plus_scratchLen

theorem calls_never_fault_sixteen :
    let ctx : Context Float32 := Context.built ⟨16, .both, true, true⟩ ⟨16, 9⟩ (.fresh 25)
    let tw : Twiddles Float32 := .view (unitTable 16 .forward) (2 ^ 4) .forward .inverse
    let bins : Array (Cplx Float32) := Array.replicate 16 ⟨1, 0⟩
    let samples : Array Float32 := Array.replicate 16 1
    (∃ after replies, ctx.run [.inverseReal 16 bins samples, .forwardReal 12 samples bins,
      .process .forward bins bins] = .ok (after, replies) ∧ after.Reachable) ∧
    (∃ outcome, Entry.inverseReal (-16) bins ⟨some ctx, samples, none, none⟩ = .ok outcome ∧
      ∀ c ∈ outcome.after.context, c.Reachable) ∧
    (∃ (created : Entry.Created Float32) (c : Context Float32),
      Entry.create 16 .both true none none = .ok created ∧ created.context = some c ∧
        c.Reachable) ∧
    (∃ after, transform .lanes tw bins 0 1 bins = .ok after ∧ Splittable 4) ∧
    Word.plus (16 / 2) 1 = .ok (Context.inverseRealScratchLen 16) := by
  intro ctx tw bins samples
  obtain ⟨hruns, hentries, hcreate, htransform, hlen⟩ := @calls_never_fault Float32 _ _
  have hl : ctx.config.layout = .ok ⟨16, 9⟩ := by decide
  have h : ctx.Reachable := Context.reachable_fresh hl (by decide)
  refine ⟨hruns ctx h _, ?_, ?_, ?_, hlen 16 (by decide)⟩
  · refine (hentries (some ctx) ?_ (-16)).2.2.2 bins samples none none
    rintro c ⟨⟩
    exact h
  · have hl' : Config.layout { maxCount := Entry.word 16, direction := .both, real := true } =
        .ok ⟨16, 9⟩ := by decide
    obtain ⟨creation, hnew, hcontext⟩ := Context.new_makes (α := Float32) hl' (by decide)
    have hbytes : ({ maxCount := Entry.word 16, direction := .both, real := true } :
        Config).requiredBytes = .ok 200 := by decide
    have hcreated : Entry.create 16 .both true none none =
        .ok (.ofCreation none creation : Entry.Created Float32) := by
      rw [Entry.create, if_pos (by decide)]
      simp only [hbytes, hnew, ok_bind]
      rfl
    have hsome : (Entry.Created.ofCreation none creation).context = some _ :=
      Entry.context_ofCreation.2 hcontext
    exact ⟨_, _, hcreated, hsome, hcreate _ _ _ _ _ _ _ hcreated hsome⟩
  · have hd : Divides (2 ^ 4) (unitTable 16 .forward : Array (Cplx Float32)) := by
      constructor <;> rw [size_unitTable] <;> decide
    have hsize : bins.size = 2 ^ 4 := by simp [bins]
    have hok := transform_view .lanes hd .forward .inverse (x := points bins)
      (fun t ht => getElem?_eq_points (by omega)) hsize
    refine ⟨_, hok, htransform _ _ _ _ _ _ _ hok 4 ?_⟩
    rw [hsize]
    exact .quarter (by decide) (by decide) (by decide) (.refl 4)

end DyadicFourier
