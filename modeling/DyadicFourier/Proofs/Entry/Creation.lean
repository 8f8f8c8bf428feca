import DyadicFourier.Proofs.Entry.History

namespace DyadicFourier

variable {α : Type}

namespace Config

def FitsIn (c : Config) (buffer : Option (Array (Cplx α))) (available : Nat) : Prop :=
  ∃ cells ∈ buffer, c.storageBytes ≤ available ∧ c.storageBytes ≤ 8 * cells.size

theorem not_fitsIn_none {c : Config} {available : Nat} :
    ¬c.FitsIn (none : Option (Array (Cplx α))) available := by
  simp [FitsIn]

theorem not_fitsIn_some_iff {c : Config} {cells : Array (Cplx α)} {available : Nat} :
    ¬c.FitsIn (some cells) available ↔
      available < c.storageBytes ∨ cells.size * pointBytes < c.storageBytes := by
  have hfits : c.FitsIn (some cells) available ↔
      c.storageBytes ≤ available ∧ c.storageBytes ≤ 8 * cells.size := by
    simp [FitsIn]
  rw [hfits, pointBytes]
  omega

theorem FitsIn.le_size {c : Config} {buffer : Option (Array (Cplx α))} {available : Nat}
    (h : c.FitsIn buffer available) : ∀ cells ∈ buffer, c.maxCount + c.scratchLen ≤ cells.size := by
  obtain ⟨cells, rfl, -, hbytes⟩ := h
  rintro _ ⟨⟩
  rw [storageBytes_eq, pointBytes] at hbytes
  omega

end Config

namespace Entry

structure Created.Withholds (created : Created α) (buffer : Option (Array (Cplx α)))
    (slot : Option Nat) : Prop where
  context_eq : created.context = none
  buffer_eq : created.buffer = buffer
  slot_eq : created.slot = slot

end Entry

variable [Scalar α] [UnitRoots α]

namespace Context

theorem ownsBuffer_built (config : Config) (layout : Layout) (lent : Option (Array (Cplx α)))
    (len : Nat) : (built config layout (.within lent len)).ownsBuffer = lent.isNone := by
  cases lent <;> rfl

theorem release_built (config : Config) {layout : Layout} {lent : Option (Array (Cplx α))}
    (hlen : ∀ buffer ∈ lent, layout.tableLen + layout.scratchLen ≤ buffer.size) :
    (built config layout (.within lent (layout.tableLen + layout.scratchLen))).release =
      lent.map fun buffer => unitTable layout.tableLen config.direction.tableSense ++
        buffer.extract layout.tableLen buffer.size := by
  cases lent with
  | none => rfl
  | some buffer =>
      have hsize := hlen buffer rfl
      have hle : layout.tableLen ≤ (buffer.extract 0 (layout.tableLen + layout.scratchLen)).size :=
        by simp; omega
      rw [release, built, Storage.release_within]
      -- the scratch cells and the rest of the buffer stay as they were lent
      change some (Cells.fill (buffer.extract 0 _) _ _ ++ _) = some _
      rw [Cells.fill_eq_append hle, unitTable_eq_tabulate, Array.append_assoc]
      congr 2
      simp [Nat.min_eq_left hsize, Nat.max_eq_right hsize]

theorem createIn_exists {config : Config} {layout : Layout} {lent : Option (Array (Cplx α))}
    (hl : config.layout = .ok layout)
    (hcap : (layout.tableLen + layout.scratchLen) * pointBytes < Word.allocationLimit)
    (hlen : ∀ buffer ∈ lent, layout.tableLen + layout.scratchLen ≤ buffer.size) :
    ∃ c, createIn lent config = .ok c ∧ c.context =
      .ok (built config layout (.within lent (layout.tableLen + layout.scratchLen))) := by
  cases lent with
  | none => exact new_makes hl hcap
  | some buffer => exact newIn_makes hl (hlen buffer rfl)

end Context

namespace Entry

/-- The call makes the context `ctx` of the configuration, in the buffer that the caller lends or in
storage of its own, and whatever came before, it answers as a context that `Context.new` makes. -/
structure Created.Makes (created : Created α) (config : Config) (lent : Option (Array (Cplx α)))
    (slot : Option Nat) (ctx : Context α) : Prop where
  context_eq : created.context = some ctx
  slot_eq : created.slot = slot
  config_eq : ctx.config = config
  ownsBuffer_eq : ctx.ownsBuffer = lent.isNone
  release_eq : ctx.release = lent.map fun buffer =>
    unitTable config.maxCount config.direction.tableSense ++
      buffer.extract config.maxCount buffer.size
  answers : ∃ c own, Context.new config = .ok c ∧ c.context = .ok own ∧
    ∀ past past', ∃ s t replies replies', ctx.run past = .ok (s, replies) ∧
      own.run past' = .ok (t, replies') ∧ s.AnswersAs t

theorem makes_ofCreation {config : Config} {layout : Layout} {lent : Option (Array (Cplx α))}
    (hl : config.layout = .ok layout)
    (hcap : (layout.tableLen + layout.scratchLen) * pointBytes < Word.allocationLimit)
    (hlen : ∀ buffer ∈ lent, layout.tableLen + layout.scratchLen ≤ buffer.size)
    (slot : Option Nat) : ∃ creation ctx, Context.createIn lent config = .ok creation ∧
      (Created.ofCreation slot creation).Makes config lent slot ctx := by
  obtain ⟨creation, h, hc⟩ := Context.createIn_exists hl hcap hlen
  obtain ⟨c, hnew, hown⟩ : ∃ c : Creation α, Context.createIn none config = .ok c ∧ _ :=
    Context.createIn_exists hl hcap fun _ hnone => nomatch hnone
  refine ⟨creation, _, h, context_ofCreation.2 hc, rfl, rfl, Context.ownsBuffer_built _ _ _ _, ?_,
    c, _, hnew, hown, ?_⟩
  · obtain ⟨-, -, rfl⟩ := Config.layout_eq_ok_iff.1 hl
    exact Context.release_built config hlen
  · have halike : Context.Alike _ _ :=
      ⟨Context.createIn_sound h hc, Context.createIn_sound hnew hown, rfl⟩
    exact halike.run_answersAs

section Requests

variable {x : Int32} {direction : Direction} {real : Bool} {config : Config}
  {buffer : Option (Array (Cplx α))} {available : Nat}

theorem layout_of_isPowerOfTwo (hp : isPowerOfTwo x = true)
    (hconfig : { maxCount := word x, direction, real } = config) :
    config.layout = .ok ⟨config.maxCount, config.scratchLen⟩ ∧
      (config.maxCount + config.scratchLen) * pointBytes < Word.allocationLimit := by
  subst hconfig
  have hcap := storage_allocates hp direction real
  refine ⟨Config.layout_eq_ok_iff.2 ⟨(isPowerOfTwo_word x).trans hp, ?_, rfl⟩, hcap⟩
  exact Nat.lt_trans hcap (by decide)

theorem create_refuses {slot : Option Nat}
    (h : isPowerOfTwo x = false ∨ buffer ≠ none ∧ slot = none) :
    ∃ created, create x direction real buffer slot = .ok created ∧
      created.Withholds buffer slot := by
  by_cases hp : isPowerOfTwo x = true
  · obtain hbad | ⟨hbuffer, rfl⟩ := h
    · exact absurd hp (by rw [hbad]; decide)
    · obtain ⟨cells, rfl⟩ := Option.ne_none_iff_exists'.1 hbuffer
      rw [create, if_pos hp]
      dsimp only
      split <;> exact ⟨_, rfl, rfl, rfl, rfl⟩
  · exact ⟨_, if_neg hp, rfl, rfl, rfl⟩

theorem create_withholds (hp : isPowerOfTwo x = true)
    (hconfig : { maxCount := word x, direction, real } = config)
    (hunfit : ¬config.FitsIn buffer available) :
    ∃ created, create x direction real buffer (some available) = .ok created ∧
      created.Withholds buffer (some config.storageBytes) := by
  have hbytes := Config.requiredBytes_of_layout (layout_of_isPowerOfTwo hp hconfig).1
  rw [create, if_pos hp]
  simp only [hconfig, hbytes]
  cases buffer with
  | none => exact ⟨_, rfl, rfl, rfl, rfl⟩
  | some cells => exact ⟨_, if_pos (Config.not_fitsIn_some_iff.1 hunfit), rfl, rfl, rfl⟩

theorem create_makes_own (hp : isPowerOfTwo x = true)
    (hconfig : { maxCount := word x, direction, real } = config) :
    ∃ created ctx, create x direction real (none : Option (Array (Cplx α))) none = .ok created ∧
      created.Makes config none none ctx := by
  obtain ⟨hl, hcap⟩ := layout_of_isPowerOfTwo hp hconfig
  have hbytes := Config.requiredBytes_of_layout hl
  have hnone : ∀ cells ∈ (none : Option (Array (Cplx α))),
      config.maxCount + config.scratchLen ≤ cells.size := by simp
  obtain ⟨creation, ctx, h, hmakes⟩ := makes_ofCreation hl hcap hnone none
  refine ⟨_, ctx, ?_, hmakes⟩
  rw [Context.createIn] at h
  rw [create, if_pos hp]
  simp only [hconfig, hbytes, h]
  rfl

theorem create_makes_in (hp : isPowerOfTwo x = true)
    (hconfig : { maxCount := word x, direction, real } = config)
    (hfits : config.FitsIn buffer available) :
    ∃ created ctx, create x direction real buffer (some available) = .ok created ∧
      created.Makes config buffer (some available) ctx := by
  obtain ⟨hl, hcap⟩ := layout_of_isPowerOfTwo hp hconfig
  have hbytes := Config.requiredBytes_of_layout hl
  obtain ⟨creation, ctx, h, hmakes⟩ := makes_ofCreation hl hcap hfits.le_size (some available)
  refine ⟨_, ctx, ?_, hmakes⟩
  cases buffer with
  | none => exact absurd hfits Config.not_fitsIn_none
  | some cells =>
      have hlong : ¬(available < config.storageBytes ∨
          cells.size * pointBytes < config.storageBytes) :=
        fun hshort => Config.not_fitsIn_some_iff.2 hshort hfits
      rw [Context.createIn] at h
      rw [create, if_pos hp]
      simp only [hconfig, hbytes, if_neg hlong, h]
      rfl

end Requests

theorem creation_protocol (maxCount : Int32) (direction : Direction) (real : Bool) :
    (∀ (buffer : Option (Array (Cplx α))) (slot : Option Nat),
      (∀ k : Nat, maxCount.toInt ≠ 2 ^ k) ∨ buffer ≠ none ∧ slot = none →
      ∃ created, create maxCount direction real buffer slot = .ok created ∧
        created.Withholds buffer slot) ∧
    ∀ k : Nat, maxCount.toInt = 2 ^ k →
      let config : Config := { maxCount := 2 ^ k, direction, real }
      (∃ created ctx, create maxCount direction real none none = .ok created ∧
        (created : Created α).Makes config none none ctx) ∧
      (∀ (buffer : Option (Array (Cplx α))) (available : Nat), ∃ created,
        create maxCount direction real buffer (some available) = .ok created ∧
        (config.FitsIn buffer available →
          ∃ ctx, created.Makes config buffer (some available) ctx) ∧
        (¬config.FitsIn buffer available →
          created.Withholds buffer (some config.storageBytes))) ∧
      ∀ (available : Nat) (cells : Array (Cplx α)), config.storageBytes ≤ 8 * cells.size →
        ∃ query created ctx, create maxCount direction real none (some available) = .ok query ∧
          (query : Created α).Withholds none (some config.storageBytes) ∧
          create maxCount direction real (some cells) query.slot = .ok created ∧
          created.Makes config (some cells) query.slot ctx := by
  constructor
  · intro buffer slot hbad
    exact create_refuses (hbad.imp_left isPowerOfTwo_eq_false)
  · intro k hk config
    have hp := isPowerOfTwo_of_toInt hk
    have hconfig : { maxCount := word maxCount, direction, real } = config := by
      rw [word_of_toInt hk]
    refine ⟨create_makes_own hp hconfig, ?_, ?_⟩
    · intro buffer available
      by_cases hfits : config.FitsIn buffer available
      · obtain ⟨created, ctx, h, hmakes⟩ := create_makes_in hp hconfig hfits
        exact ⟨created, h, fun _ => ⟨ctx, hmakes⟩, fun hunfit => absurd hfits hunfit⟩
      · obtain ⟨created, h, hwithholds⟩ := create_withholds hp hconfig hfits
        exact ⟨created, h, fun hfits' => absurd hfits' hfits, fun _ => hwithholds⟩
    · intro available cells hcells
      have hfits : config.FitsIn (some cells) config.storageBytes :=
        ⟨cells, rfl, Nat.le_refl config.storageBytes, hcells⟩
      have hnone : ¬config.FitsIn (none : Option (Array (Cplx α))) available :=
        Config.not_fitsIn_none
      obtain ⟨query, hquery, hwithholds⟩ := create_withholds hp hconfig hnone
      obtain ⟨created, ctx, h, hmakes⟩ := create_makes_in hp hconfig hfits
      rw [← hwithholds.slot_eq] at h hmakes
      exact ⟨query, created, ctx, hquery, hwithholds, h, hmakes⟩

theorem creation_protocol_sixteen :
    let config : Config := { maxCount := 16, direction := .both, real := true }
    let buffer : Array (Cplx Float32) := Array.replicate 26 ⟨5, 7⟩
    (∃ refused, create 12 .both true (some buffer) (some 208) = .ok refused ∧
      refused.Withholds (some buffer) (some 208)) ∧
    ∃ query created ctx, create 16 .both true none (some 0) = .ok query ∧
      (query : Created Float32).Withholds none (some 200) ∧
      create 16 .both true (some buffer) query.slot = .ok created ∧
      created.Makes config (some buffer) query.slot ctx ∧
      ctx.release = some (unitTable 16 .forward ++ buffer.extract 16 26) := by
  intro config buffer
  constructor
  · have hbad (k : Nat) (hk : (12 : Int32).toInt = 2 ^ k) : False :=
      absurd (isPowerOfTwo_of_toInt hk) (by decide)
    exact (creation_protocol 12 .both true).1 (some buffer) (some 208) (.inl hbad)
  · have hbytes : config.storageBytes = 200 := by decide
    have hfits : config.storageBytes ≤ 8 * buffer.size := by simp [hbytes, buffer]
    obtain ⟨-, -, hretry⟩ := (@creation_protocol Float32 _ _ 16 .both true).2 4 (by decide)
    obtain ⟨query, created, ctx, hquery, hwithholds, h, hmakes⟩ := hretry 0 buffer hfits
    exact ⟨query, created, ctx, hquery, hwithholds, h, hmakes, hmakes.release_eq⟩

end Entry

end DyadicFourier
