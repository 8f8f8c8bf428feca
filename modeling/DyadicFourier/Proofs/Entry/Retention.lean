import DyadicFourier.Proofs.Context.Sizing
import DyadicFourier.Proofs.Entry.Refinement

namespace DyadicFourier

variable {α : Type}

def Storage.within [Scalar α] : Option (Array (Cplx α)) → Nat → Storage α
  | none, len => .fresh len
  | some buffer, len => .borrow buffer len

theorem Storage.release_within [Scalar α] (lent : Option (Array (Cplx α))) (len : Nat)
    (cells : Array (Cplx α)) : ((within lent len).withCells cells).release =
      lent.map fun buffer => cells ++ buffer.extract len buffer.size := by
  cases lent <;> rfl

namespace Entry

theorem buffer_ofCreation {slot : Option Nat} {creation : Creation α}
    {lent : Option (Array (Cplx α))}
    (h : ∀ cause, creation.context = .error cause → creation.buffer = lent)
    (hnone : (Created.ofCreation slot creation).context = none) :
    (Created.ofCreation slot creation).buffer = lent := by
  cases hc : creation.context with
  | error cause => exact h cause hc
  | ok ctx =>
      rw [context_ofCreation.2 hc] at hnone
      cases hnone

end Entry

variable [Scalar α] [UnitRoots α]

namespace Context

inductive CreatedIn : Option (Array (Cplx α)) → Context α → Prop
  | direct {lent : Option (Array (Cplx α))} {config : Config} {c : Creation α} {ctx : Context α} :
      createIn lent config = .ok c → c.context = .ok ctx → CreatedIn lent ctx
  | entry {maxCount : Int32} {direction : Direction} {real : Bool}
      {lent : Option (Array (Cplx α))} {slot : Option Nat} {created : Entry.Created α}
      {ctx : Context α} : Entry.create maxCount direction real lent slot = .ok created →
      created.context = some ctx → CreatedIn lent ctx

theorem createIn_inv {lent : Option (Array (Cplx α))} {config : Config} {c : Creation α}
    {ctx : Context α} (h : createIn lent config = .ok c) (hc : c.context = .ok ctx) :
    ∃ layout, config.layout = .ok layout ∧
      ctx = built config layout (.within lent (layout.tableLen + layout.scratchLen)) := by
  cases lent with
  | none =>
      obtain ⟨layout, hl, -, hctx⟩ := new_inv h hc
      exact ⟨layout, hl, hctx⟩
  | some buffer =>
      obtain ⟨layout, hl, -, hctx⟩ := newIn_inv h hc
      exact ⟨layout, hl, hctx⟩

namespace CreatedIn

variable {lent : Option (Array (Cplx α))} {ctx : Context α}

theorem exists_createIn (h : CreatedIn lent ctx) :
    ∃ config c, createIn lent config = .ok c ∧ c.context = .ok ctx := by
  cases h with
  | direct h hc => exact ⟨_, _, h, hc⟩
  | entry h hc =>
      obtain ⟨creation, hcontext, hcreation⟩ := Entry.create_inv h hc
      exact ⟨_, _, hcreation, hcontext⟩

theorem sound (h : CreatedIn lent ctx) : ctx.Sound := by
  obtain ⟨config, c, hcreate, hc⟩ := h.exists_createIn
  exact createIn_sound hcreate hc

theorem release_withRows (h : CreatedIn lent ctx) (scratch : Array (Cplx α)) :
    (ctx.withRows scratch).release = lent.map fun buffer =>
      unitTable ctx.maxCount ctx.tableSense ++ scratch ++
        buffer.extract (ctx.layout.tableLen + ctx.layout.scratchLen) buffer.size := by
  obtain ⟨config, c, hcreate, hc⟩ := h.exists_createIn
  obtain ⟨layout, hl, rfl⟩ := createIn_inv hcreate hc
  simp only [release, withRows, built, Storage.withCells_withCells, Storage.release_within]

end CreatedIn

/-- What the cells of a context hold, and what its caller gets back: the table of its creation, the
scratch, and of a longer buffer the rest. -/
structure Retains (lent : Option (Array (Cplx α))) (ctx after : Context α)
    (scratch : Array (Cplx α)) : Prop where
  config_eq : after.config = ctx.config
  cells_eq : after.storage.cells = unitTable ctx.maxCount ctx.tableSense ++ scratch
  table_eq : after.table = .ok (unitTable ctx.maxCount ctx.tableSense)
  scratch_eq : after.scratch = .ok scratch
  size_scratch : scratch.size =
    if ctx.config.real = true ∧ ctx.config.direction.supports .inverse = true then
      ctx.config.maxCount / 2 + 1
    else 0
  release_eq : ∃ required, ctx.config.requiredLen = .ok required ∧
    after.release = lent.map fun buffer =>
      unitTable ctx.maxCount ctx.tableSense ++ scratch ++ buffer.extract required buffer.size

theorem CreatedIn.retains {lent : Option (Array (Cplx α))} {ctx : Context α}
    (h : CreatedIn lent ctx) {scratch : Array (Cplx α)}
    (hsize : scratch.size = ctx.layout.scratchLen) :
    Retains lent ctx (ctx.withRows scratch) scratch where
  config_eq := rfl
  cells_eq := ctx.cells_withRows scratch
  table_eq := (h.sound.sound_withRows hsize).table_eq
  scratch_eq := h.sound.scratch_withRows hsize
  size_scratch := hsize.trans (h.sound.scratchLen_eq.trans ctx.config.scratchLen_eq)
  release_eq := ⟨_, Config.requiredLen_of_layout h.sound.layout_eq, h.release_withRows scratch⟩

theorem Sound.perform_frame {ctx : Context α} (h : ctx.Sound) (call : Call α) :
    ∃ after reply, ctx.perform call = .ok (after, reply) ∧
      (after = ctx ∨ ∃ count input output, call = .inverseReal count input output ∧
        reply.isAccepted = true ∧ 2 ≤ count ∧
        ∀ i, i < ctx.maxCount ∨ ctx.maxCount + count / 2 < i →
          after.storage.cells[i]? = ctx.storage.cells[i]?) := by
  obtain ⟨scratch, hs, -⟩ := h.scratch_eq
  refine ⟨_, _, h.perform_rows hs call, ?_⟩
  -- the table is the same before and after, so the rows of the scratch decide
  have hkept (hsame : (ctx.answer scratch call).2 = scratch) :
      ctx.withRows (ctx.answer scratch call).2 = ctx := by
    rw [hsame, h.withRows_self hs]
  cases call with
  | inverseReal count input output =>
      have hrow (k : Nat) (hk : count < 2 ∨ count / 2 < k) :
          (ctx.answer scratch (.inverseReal count input output)).2[k]? = scratch[k]? :=
        scratch_inverseReply_getElem? hk
      by_cases hcount : 2 ≤ count
      · cases ha : (ctx.answer scratch (.inverseReal count input output)).1.isAccepted with
        | false => exact .inl (hkept (answer_of_refused ha).2)
        | true =>
            refine .inr ⟨count, input, output, rfl, rfl, hcount, ?_⟩
            intro i hi
            rw [cells_withRows, h.cells_eq hs, Array.getElem?_append, Array.getElem?_append,
              size_unitTable]
            split
            · rfl
            · exact hrow _ (.inr (by omega))
      · exact .inl (hkept (Array.ext_getElem? fun k => hrow k (.inl (by omega))))
  | _ => exact .inl (hkept rfl)

theorem newIn_exists (config : Config) (buffer : Array (Cplx α)) :
    ∃ c, Context.newIn config buffer = .ok c ∧
      ∀ cause, c.context = .error cause → c.buffer = some buffer := by
  obtain ⟨cause, -, h⟩ | ⟨layout, required, -, -, -, h⟩ | ⟨layout, c, -, -, h, hc⟩ :=
    newIn_cases config buffer
  · exact ⟨_, h, fun _ _ => rfl⟩
  · exact ⟨_, h, fun _ _ => rfl⟩
  · exact ⟨c, h, by simp [hc]⟩

theorem new_exists {config : Config} (hcap : ∀ layout, config.layout = .ok layout →
    (layout.tableLen + layout.scratchLen) * pointBytes < Word.allocationLimit) :
    ∃ c : Creation α, Context.new config = .ok c ∧
      ∀ cause, c.context = .error cause → c.buffer = none := by
  obtain ⟨cause, -, h⟩ | ⟨layout, hl, hlarge, -⟩ | ⟨layout, c, -, -, h, hc⟩ :=
    new_cases (α := α) config
  · exact ⟨_, h, fun _ _ => rfl⟩
  · exact absurd (hcap layout hl) hlarge
  · exact ⟨c, h, by simp [hc]⟩

theorem createIn_keeps {config : Config} (lent : Option (Array (Cplx α)))
    (hcap : ∀ layout, config.layout = .ok layout →
      (layout.tableLen + layout.scratchLen) * pointBytes < Word.allocationLimit) :
    ∃ c, createIn lent config = .ok c ∧ ∀ cause, c.context = .error cause → c.buffer = lent := by
  cases lent with
  | none => exact new_exists hcap
  | some buffer => exact newIn_exists config buffer

end Context

namespace Entry

theorem word_le_of_isPowerOfTwo {x : Int32} (h : isPowerOfTwo x = true) : word x ≤ 2 ^ 30 := by
  obtain ⟨k, hk, hx⟩ := isPowerOfTwo_iff_exists.1 h
  have hpow : (2 : Int) ^ k ≤ 2 ^ 30 := pow_le_pow_right₀ (by decide) hk
  rw [word_eq (pos_of_isPowerOfTwo h)]
  omega

theorem storage_allocates {x : Int32} (h : isPowerOfTwo x = true) (direction : Direction)
    (real : Bool) : (word x + Config.scratchLen { maxCount := word x, direction, real }) *
      pointBytes < Word.allocationLimit := by
  have hword := word_le_of_isPowerOfTwo h
  have hscratch : Config.scratchLen { maxCount := word x, direction, real } ≤ word x / 2 + 1 := by
    rw [Config.scratchLen]
    split <;> simp
  have hlimit : Word.allocationLimit = 2 ^ 63 := rfl
  rw [pointBytes]
  omega

theorem allocation_fits {x : Int32} (h : isPowerOfTwo x = true) {direction : Direction}
    {real : Bool} {layout : Layout}
    (hl : Config.layout { maxCount := word x, direction, real } = .ok layout) :
    (layout.tableLen + layout.scratchLen) * pointBytes < Word.allocationLimit := by
  obtain ⟨-, -, rfl⟩ := Config.layout_eq_ok_iff.1 hl
  exact storage_allocates h direction real

theorem create_exists (maxCount : Int32) (direction : Direction) (real : Bool)
    (buffer : Option (Array (Cplx α))) (slot : Option Nat) :
    ∃ created, create maxCount direction real buffer slot = .ok created ∧
      (created.context = none → created.buffer = buffer) := by
  obtain ⟨slot', events, hnothing⟩ | ⟨hp, hpassed⟩ :=
    create_cases maxCount direction real buffer slot
  · exact ⟨_, hnothing, fun _ => rfl⟩
  · obtain ⟨creation, h, hkept⟩ :=
      Context.createIn_keeps buffer fun layout hl => allocation_fits hp hl
    rw [hpassed, h]
    exact ⟨_, rfl, buffer_ofCreation hkept⟩

end Entry

namespace Context

theorem storage_retained :
    (∀ (lent : Option (Array (Cplx α))) (ctx : Context α), CreatedIn lent ctx →
      ∀ calls : List (Call α), ∃ after replies scratch, ctx.run calls = .ok (after, replies) ∧
        Retains lent ctx after scratch ∧
        ∀ call, ∃ next reply, after.perform call = .ok (next, reply) ∧
          (next = after ∨ ∃ count input output, call = .inverseReal count input output ∧
            reply.isAccepted = true ∧ 2 ≤ count ∧
            ∀ i, i < after.maxCount ∨ after.maxCount + count / 2 < i →
              next.storage.cells[i]? = after.storage.cells[i]?)) ∧
    (∀ (config : Config) (buffer : Array (Cplx α)), ∃ c, Context.newIn config buffer = .ok c ∧
      ∀ cause, c.context = .error cause → c.buffer = some buffer) ∧
    ∀ maxCount direction real (buffer : Option (Array (Cplx α))) slot, ∃ created,
      Entry.create maxCount direction real buffer slot = .ok created ∧
        (created.context = none → created.buffer = buffer) := by
  refine ⟨fun lent ctx h calls => ?_, newIn_exists, Entry.create_exists⟩
  obtain ⟨scratch, hs, hlen⟩ := h.sound.scratch_eq
  have hsize := (ctx.size_answers scratch calls).trans hlen
  exact ⟨_, _, _, h.sound.run_rows hs calls, h.retains hsize,
    (h.sound.sound_withRows hsize).perform_frame⟩

theorem storage_retained_sixteen :
    let config : Config := ⟨16, .both, true, false⟩
    let buffer : Array (Cplx Float32) := Array.replicate 40 ⟨5, 7⟩
    let bins : Array (Cplx Float32) := Array.replicate 9 ⟨1, 0⟩
    let samples : Array Float32 := Array.replicate 16 0
    ∃ ctx after replies scratch, CreatedIn (some buffer) ctx ∧ ctx.config = config ∧
      ctx.run [.inverseReal 16 bins samples, .process .forward bins bins] = .ok (after, replies) ∧
      scratch.size = 9 ∧
      after.release = some (unitTable 16 .forward ++ scratch ++ buffer.extract 25 40) := by
  intro config buffer bins samples
  obtain ⟨hruns, -, -⟩ := @storage_retained Float32 _ _
  have hl : config.layout = .ok ⟨16, 9⟩ := by decide
  have hlen : 16 + 9 ≤ buffer.size := by simp [buffer]
  obtain ⟨c, hnew, hc⟩ := newIn_makes hl hlen
  have h : CreatedIn (some buffer) _ := .direct hnew hc
  obtain ⟨after, replies, scratch, hrun, hkept, -⟩ :=
    hruns _ _ h [.inverseReal 16 bins samples, .process .forward bins bins]
  obtain ⟨required, hrequired, hrelease⟩ := hkept.release_eq
  have h25 : config.requiredLen = .ok 25 := by decide
  cases h25.symm.trans hrequired
  have hsize : scratch.size = 16 / 2 + 1 := hkept.size_scratch.trans (if_pos ⟨rfl, rfl⟩)
  exact ⟨_, after, replies, scratch, h, rfl, hrun, hsize, hrelease⟩

end Context

end DyadicFourier
