import DyadicFourier.Proofs.Context.Sizing

namespace DyadicFourier

variable {α : Type}

theorem Word.lt_allocationLimit_iff {n : Nat} : n < allocationLimit ↔ n ≤ 2 ^ 63 - 1 := by
  have hlimit : allocationLimit = 2 ^ 63 := rfl
  rw [hlimit]
  omega

namespace Config

variable {c : Config}

theorem le_storageBytes (c : Config) : 8 * c.maxCount ≤ c.storageBytes :=
  Nat.mul_le_mul_left 8 (Nat.le_add_right _ _)

theorem storageBytes_le (c : Config) : c.storageBytes ≤ 12 * c.maxCount + 8 := by
  rw [storageBytes, storageLen]
  split <;> omega

theorem storageBytes_fits_iff (hp : c.maxCount.isPowerOfTwo) :
    c.storageBytes ≤ 2 ^ 64 - 1 ↔ c.maxCount ≤ 2 ^ 60 := by
  have hlow := c.le_storageBytes
  have hhigh := c.storageBytes_le
  obtain ⟨k, hk⟩ := hp
  rw [hk] at hlow hhigh ⊢
  constructor
  · intro hle
    have hlt : 2 ^ k < 2 ^ 61 := by omega
    exact Nat.pow_le_pow_right Nat.two_pos
      (Nat.le_of_lt_succ ((Nat.pow_lt_pow_iff_right Nat.one_lt_two).1 hlt))
  · intro hle
    omega

theorem storageBytes_allocates_iff (hp : c.maxCount.isPowerOfTwo) :
    c.storageBytes ≤ 2 ^ 63 - 1 ↔ c.maxCount < 2 ^ 60 := by
  -- the scratch adds no more than half of the table, so the table alone decides
  have hlow := c.le_storageBytes
  have hhigh := c.storageBytes_le
  obtain ⟨k, hk⟩ := hp
  rw [hk] at hlow hhigh ⊢
  constructor
  · intro hle
    omega
  · intro hlt
    have hexp : k ≤ 59 := Nat.le_of_lt_succ ((Nat.pow_lt_pow_iff_right Nat.one_lt_two).1 hlt)
    have hle : 2 ^ k ≤ 2 ^ 59 := Nat.pow_le_pow_right Nat.two_pos hexp
    omega

theorem requiredBytes_allocates_iff {l : Layout} (hl : c.layout = .ok l) :
    ∃ bytes, c.requiredBytes = .ok bytes ∧ (bytes ≤ 2 ^ 63 - 1 ↔ c.maxCount ≠ 2 ^ 60) := by
  obtain ⟨hp, hfits, -⟩ := layout_eq_ok_iff.1 hl
  rw [← storageBytes_eq, Word.fits_iff, storageBytes_fits_iff (Word.isPowerOfTwo_iff.1 hp)] at hfits
  refine ⟨_, requiredBytes_of_layout hl, ?_⟩
  rw [storageBytes_allocates_iff (Word.isPowerOfTwo_iff.1 hp)]
  exact ⟨Nat.ne_of_lt, Nat.lt_of_le_of_ne hfits⟩

end Config

namespace Context

variable [Scalar α] [UnitRoots α] {c : Config}

theorem new_of_refused {cause : Refusal} (h : c.requiredLen = .error cause) :
    (Context.new c : Checked (Creation α)) = .ok ⟨.error cause, none, []⟩ := by
  rw [← map_cellPlan] at h
  obtain ⟨cause', hplan, hnew⟩ | ⟨layout, hl, -⟩ | ⟨layout, -, hl, -⟩ := new_cases (α := α) c
  · rw [hplan] at h
    cases h
    exact hnew
  · rw [cellPlan_eq_ok_iff.2 ⟨hl, rfl⟩] at h
    cases h
  · rw [cellPlan_eq_ok_iff.2 ⟨hl, rfl⟩] at h
    cases h

section Sized

variable (hp : c.maxCount.isPowerOfTwo)

include hp

theorem new_beyond_limit (hle : c.storageBytes ≤ 2 ^ 64 - 1)
    (hlimit : 2 ^ 63 - 1 < c.storageBytes) :
    (Context.new c : Checked (Creation α)) = .error (.capacity c.storageBytes) := by
  have hl := c.layout_eq_sized.trans (Config.sized_of_le hp hle)
  have hcap : ¬c.storageBytes < Word.allocationLimit := by
    rw [Word.lt_allocationLimit_iff]
    exact Nat.not_le.2 hlimit
  rw [c.storageBytes_eq] at hcap ⊢
  rw [new, cellPlan_eq_ok_iff.2 ⟨hl, rfl⟩]
  exact if_neg hcap

theorem new_within_limit (hle : c.storageBytes ≤ 2 ^ 63 - 1) :
    ∃ (creation : Creation α) (ctx : Context α), Context.new c = .ok creation ∧
      creation.context = .ok ctx ∧ ctx.storage.cells.size * 8 = c.storageBytes := by
  have hl := c.layout_eq_sized.trans (Config.sized_of_le hp (hle.trans (by decide)))
  have hcap : (c.maxCount + c.scratchLen) * pointBytes < Word.allocationLimit := by
    rw [← c.storageBytes_eq, Word.lt_allocationLimit_iff]
    exact hle
  obtain ⟨creation, h, hc⟩ := new_makes (α := α) hl hcap
  refine ⟨creation, _, h, hc, ?_⟩
  rw [(sound_built hl (by simp [Storage.fresh, Storage.cells])).size_cells]
  exact c.storageBytes_eq.symm

end Sized

theorem owned_creation_exact (c : Config) :
    (c.maxCount ≠ 2 ^ 60 → ∃ creation : Creation α, Context.new c = .ok creation ∧
      ((¬c.maxCount.isPowerOfTwo ∧ creation.context = .error .notPowerOfTwo) ∨
        (2 ^ 60 < c.maxCount ∧ creation.context = .error .tooLarge) ∨
        ∃ ctx bytes, creation.context = .ok ctx ∧ ctx.storage.cells.size * 8 = bytes ∧
          c.requiredBytes = .ok bytes ∧ bytes ≤ 2 ^ 63 - 1)) ∧
    (c.maxCount = 2 ^ 60 →
      (Context.new c : Checked (Creation α)) = .error (.capacity c.storageBytes) ∧
      c.requiredBytes = .ok c.storageBytes ∧ 2 ^ 63 - 1 < c.storageBytes) ∧
    ∀ l, c.layout = .ok l →
      ∃ bytes, c.requiredBytes = .ok bytes ∧ (bytes ≤ 2 ^ 63 - 1 ↔ c.maxCount ≠ 2 ^ 60) := by
  refine ⟨fun hne => ?_, fun heq => ?_, fun l hl => Config.requiredBytes_allocates_iff hl⟩
  · obtain hp | ⟨hp, hlt⟩ | ⟨hp, hle⟩ := c.sized_cases
    · exact ⟨_, new_of_refused (c.requiredLen_eq_sized.trans (Config.sized_of_not_isPowerOfTwo hp)),
        .inl ⟨hp, rfl⟩⟩
    · have hlarge : 2 ^ 60 < c.maxCount := by
        rw [← Nat.not_le, ← Config.storageBytes_fits_iff hp]
        exact Nat.not_le.2 hlt
      exact ⟨_, new_of_refused (c.requiredLen_eq_sized.trans (Config.sized_of_lt hp hlt)),
        .inr (.inl ⟨hlarge, rfl⟩)⟩
    · have hlt := Nat.lt_of_le_of_ne ((Config.storageBytes_fits_iff hp).1 hle) hne
      have hcap := (Config.storageBytes_allocates_iff hp).2 hlt
      obtain ⟨creation, ctx, h, hc, hsize⟩ := new_within_limit (α := α) hp hcap
      have hbytes := c.requiredBytes_eq_sized.trans (Config.sized_of_le hp hle)
      exact ⟨creation, h, .inr (.inr ⟨ctx, _, hc, hsize, hbytes, hcap⟩)⟩
  · have hp : c.maxCount.isPowerOfTwo := ⟨60, heq⟩
    have hle := (Config.storageBytes_fits_iff hp).2 (Nat.le_of_eq heq)
    have hlimit : 2 ^ 63 - 1 < c.storageBytes := by
      rw [← Nat.not_le, Config.storageBytes_allocates_iff hp]
      exact Nat.not_lt.2 (Nat.le_of_eq heq.symm)
    exact ⟨new_beyond_limit hp hle hlimit,
      c.requiredBytes_eq_sized.trans (Config.sized_of_le hp hle), hlimit⟩

theorem owned_creation_exact_at_limit :
    let last : Config := ⟨2 ^ 59, .both, true, true⟩
    let beyond : Config := ⟨2 ^ 60, .both, true, true⟩
    last.maxCount ≠ 2 ^ 60 ∧ (∃ (creation : Creation Float32) (ctx : Context Float32),
      Context.new last = .ok creation ∧ creation.context = .ok ctx ∧
        ctx.storage.cells.size * 8 = 2 ^ 62 + 2 ^ 61 + 8) ∧
    (∃ bytes, last.requiredBytes = .ok bytes ∧ bytes ≤ 2 ^ 63 - 1) ∧
    (Context.new beyond : Checked (Creation Float32)) =
      .error (.capacity (2 ^ 63 + 2 ^ 62 + 8)) := by
  intro last beyond
  obtain ⟨hlast, -, hplanned⟩ := owned_creation_exact (α := Float32) last
  obtain ⟨-, hbeyond, -⟩ := owned_creation_exact (α := Float32) beyond
  have hne : last.maxCount ≠ 2 ^ 60 := by decide
  have hbytes : last.requiredBytes = .ok (2 ^ 62 + 2 ^ 61 + 8) := by decide
  have hstorage : beyond.storageBytes = 2 ^ 63 + 2 ^ 62 + 8 := by decide
  obtain ⟨creation, h, ⟨hp, -⟩ | ⟨hlt, -⟩ | ⟨ctx, bytes, hc, hsize, hrequired, -⟩⟩ := hlast hne
  · exact absurd ⟨59, rfl⟩ hp
  · exact absurd hlt (by decide)
  · cases hbytes.symm.trans hrequired
    obtain ⟨bytes, hplan, hle⟩ := hplanned ⟨2 ^ 59, 2 ^ 58 + 1⟩ (by decide)
    exact ⟨hne, ⟨creation, ctx, h, hc, hsize⟩, ⟨bytes, hplan, hle.2 hne⟩,
      hstorage ▸ (hbeyond rfl).1⟩

theorem owned_creation_beyond_limit :
    let c : Config := ⟨2 ^ 60, .forward, false, true⟩
    c.layout = .ok ⟨2 ^ 60, 0⟩ ∧ (∃ bytes, c.requiredBytes = .ok bytes ∧ 2 ^ 63 - 1 < bytes) ∧
      (Context.new c : Checked (Creation Float32)) = .error (.capacity (2 ^ 63)) := by
  intro c
  have hbytes : c.storageBytes = 2 ^ 63 := by decide
  have hrequired : c.requiredBytes = .ok (2 ^ 63) := by decide
  refine ⟨by decide, ⟨_, hrequired, by decide⟩, ?_⟩
  rw [← hbytes]
  exact new_beyond_limit ⟨60, rfl⟩ (by decide) (by decide)

end Context

end DyadicFourier
