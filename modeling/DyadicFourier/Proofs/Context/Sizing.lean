import DyadicFourier.Proofs.Context.Reachable

namespace DyadicFourier

variable {α : Type}

theorem Word.fits_iff {n : Nat} : Fits n ↔ n ≤ 2 ^ 64 - 1 := by
  have hlimit : limit = 2 ^ 64 := rfl
  rw [Fits, hlimit]
  omega

theorem Word.isPowerOfTwo_eq_false {n : Nat} : isPowerOfTwo n = false ↔ ¬n.isPowerOfTwo := by
  rw [Bool.eq_false_iff, ne_eq, isPowerOfTwo_iff]
  rfl

theorem Layout.bytes_eq_fit (l : Layout) :
    l.bytes = fit ((l.tableLen + l.scratchLen) * pointBytes) := by
  rw [bytes, total]
  by_cases hlen : Word.Fits (l.tableLen + l.scratchLen)
  · rw [fit, if_pos hlen]
    rfl
  -- a sum that is too large for a word stays too large when it is multiplied
  · have hbytes : ¬Word.Fits ((l.tableLen + l.scratchLen) * pointBytes) :=
      fun hfits => hlen (hfits.mono (Nat.le_mul_of_pos_right _ (by decide)))
    rw [fit, if_neg hlen, fit, if_neg hbytes]
    rfl

namespace Config

def storageLen (c : Config) : Nat :=
  c.maxCount +
    if c.real = true ∧ c.direction.supports .inverse = true then c.maxCount / 2 + 1 else 0

def storageBytes (c : Config) : Nat := 8 * c.storageLen

theorem scratchLen_eq (c : Config) : c.scratchLen =
    if c.real = true ∧ c.direction.supports .inverse = true then c.maxCount / 2 + 1 else 0 := by
  rw [scratchLen]
  simp only [Bool.and_eq_true]

theorem storageLen_eq (c : Config) : c.storageLen = c.maxCount + c.scratchLen := by
  rw [storageLen, scratchLen_eq]

theorem storageBytes_eq (c : Config) :
    c.storageBytes = (c.maxCount + c.scratchLen) * pointBytes := by
  rw [storageBytes, storageLen_eq, Nat.mul_comm]
  rfl

/-- The answer to a question about the storage, if the answer is `x` when the storage can be had.
Whether there is a power of two to size for is looked at first. -/
def sized {γ : Type} (c : Config) (x : γ) : Except Refusal γ :=
  if c.maxCount.isPowerOfTwo then
    if c.storageBytes ≤ 2 ^ 64 - 1 then .ok x else .error .tooLarge
  else .error .notPowerOfTwo

section Sized

variable {γ δ : Type} {c : Config} {x : γ} {y : δ}

theorem sized_of_le (hp : c.maxCount.isPowerOfTwo) (hle : c.storageBytes ≤ 2 ^ 64 - 1) :
    c.sized x = .ok x := by
  rw [sized, if_pos hp, if_pos hle]

theorem sized_of_lt (hp : c.maxCount.isPowerOfTwo) (hlt : 2 ^ 64 - 1 < c.storageBytes) :
    c.sized x = .error .tooLarge := by
  rw [sized, if_pos hp, if_neg (Nat.not_le.2 hlt)]

theorem sized_of_not_isPowerOfTwo (hp : ¬c.maxCount.isPowerOfTwo) :
    c.sized x = .error .notPowerOfTwo := by
  rw [sized, if_neg hp]

theorem sized_cases (c : Config) :
    ¬c.maxCount.isPowerOfTwo ∨
      c.maxCount.isPowerOfTwo ∧ 2 ^ 64 - 1 < c.storageBytes ∨
      c.maxCount.isPowerOfTwo ∧ c.storageBytes ≤ 2 ^ 64 - 1 := by
  by_cases hp : c.maxCount.isPowerOfTwo
  · obtain hlt | hle := Nat.lt_or_ge (2 ^ 64 - 1) c.storageBytes
    · exact .inr (.inl ⟨hp, hlt⟩)
    · exact .inr (.inr ⟨hp, hle⟩)
  · exact .inl hp

theorem sized_eq_notPowerOfTwo_iff :
    c.sized x = .error .notPowerOfTwo ↔ ¬c.maxCount.isPowerOfTwo := by
  obtain hp | ⟨hp, hlt⟩ | ⟨hp, hle⟩ := c.sized_cases
  · simp [sized_of_not_isPowerOfTwo hp, hp]
  · simp [sized_of_lt hp hlt, hp]
  · simp [sized_of_le hp hle, hp]

theorem sized_eq_tooLarge_iff :
    c.sized x = .error .tooLarge ↔ c.maxCount.isPowerOfTwo ∧ 2 ^ 64 - 1 < c.storageBytes := by
  obtain hp | ⟨hp, hlt⟩ | ⟨hp, hle⟩ := c.sized_cases
  · simp [sized_of_not_isPowerOfTwo hp, hp]
  · rw [sized_of_lt hp hlt]
    exact iff_of_true rfl ⟨hp, hlt⟩
  · rw [sized_of_le hp hle]
    exact iff_of_false (by simp) fun h => Nat.not_lt.2 hle h.2

theorem sized_bind {f : γ → Except Refusal δ}
    (hf : c.maxCount.isPowerOfTwo → c.storageBytes ≤ 2 ^ 64 - 1 → f x = .ok y) :
    (c.sized x >>= f) = c.sized y := by
  obtain hp | ⟨hp, hlt⟩ | ⟨hp, hle⟩ := c.sized_cases
  · rw [sized_of_not_isPowerOfTwo hp, sized_of_not_isPowerOfTwo hp]
    rfl
  · rw [sized_of_lt hp hlt, sized_of_lt hp hlt]
    rfl
  · rw [sized_of_le hp hle, sized_of_le hp hle, ok_bind, hf hp hle]

end Sized

theorem fits_storage {c : Config} (hle : c.storageBytes ≤ 2 ^ 64 - 1) :
    Word.Fits ((c.maxCount + c.scratchLen) * pointBytes) := by
  rw [← storageBytes_eq]
  exact Word.fits_iff.2 hle

theorem layout_eq_sized (c : Config) : c.layout = c.sized ⟨c.maxCount, c.scratchLen⟩ := by
  obtain hp | ⟨hp, hlt⟩ | ⟨hp, hle⟩ := c.sized_cases
  · rw [sized_of_not_isPowerOfTwo hp, layout, Word.isPowerOfTwo_eq_false.2 hp]
    rfl
  · have hbytes : ¬Word.Fits ((c.maxCount + c.scratchLen) * pointBytes) := by
      rw [← storageBytes_eq, Word.fits_iff]
      exact Nat.not_le.2 hlt
    rw [sized_of_lt hp hlt, layout, if_pos (Word.isPowerOfTwo_iff.2 hp)]
    simp only [Layout.bytes_eq_fit, Layout.fit, if_neg hbytes]
    rfl
  · rw [sized_of_le hp hle, layout_eq_ok_iff]
    exact ⟨Word.isPowerOfTwo_iff.2 hp, fits_storage hle, rfl⟩

theorem total_of_le {c : Config} (hle : c.storageBytes ≤ 2 ^ 64 - 1) :
    Layout.total ⟨c.maxCount, c.scratchLen⟩ = .ok c.storageLen := by
  rw [storageLen_eq]
  exact if_pos ((fits_storage hle).mono (Nat.le_mul_of_pos_right _ (by decide)))

theorem requiredLen_eq_sized (c : Config) : c.requiredLen = c.sized c.storageLen := by
  rw [requiredLen, layout_eq_sized]
  exact sized_bind fun _ hle => total_of_le hle

theorem requiredBytes_eq_sized (c : Config) : c.requiredBytes = c.sized c.storageBytes := by
  rw [requiredBytes, layout_eq_sized]
  apply sized_bind
  intro _ hle
  exact Layout.bytes_eq_ok_iff.2 ⟨fits_storage hle, c.storageBytes_eq.symm⟩

section Planned

variable {c : Config} {l : Layout}

theorem sized_of_layout {γ : Type} (h : c.layout = .ok l) (x : γ) : c.sized x = .ok x := by
  obtain ⟨hp, hfits, -⟩ := layout_eq_ok_iff.1 h
  rw [← storageBytes_eq, Word.fits_iff] at hfits
  exact sized_of_le (Word.isPowerOfTwo_iff.1 hp) hfits

theorem requiredLen_of_layout (h : c.layout = .ok l) :
    c.requiredLen = .ok (l.tableLen + l.scratchLen) := by
  rw [requiredLen_eq_sized, sized_of_layout h, storageLen_eq]
  rw [(layout_eq_ok_iff.1 h).2.2]

theorem requiredBytes_of_layout (h : c.layout = .ok l) :
    c.requiredBytes = .ok c.storageBytes := by
  rw [requiredBytes_eq_sized, sized_of_layout h]

end Planned

end Config

structure WordConfig where
  maxCount : UInt64
  direction : Direction
  real : Bool
  simd : Bool
  deriving DecidableEq, Repr

namespace WordConfig

def config (c : WordConfig) : Config := ⟨c.maxCount.toNat, c.direction, c.real, c.simd⟩

def checked (overflow : Bool) (x : UInt64) : Except Refusal UInt64 :=
  if overflow then .error .tooLarge else .ok x

/-- The one sum that nobody checks. -/
def scratchLen (c : WordConfig) : UInt64 :=
  if c.real && c.direction.supports .inverse then c.maxCount / 2 + 1 else 0

def total (c : WordConfig) : Except Refusal UInt64 :=
  checked (c.maxCount.toBitVec.uaddOverflow c.scratchLen.toBitVec) (c.maxCount + c.scratchLen)

def bytes (c : WordConfig) : Except Refusal UInt64 := do
  let total ← c.total
  checked (total.toBitVec.umulOverflow 8) (total * 8)

def planned (c : WordConfig) (answer : Except Refusal UInt64) : Except Refusal UInt64 :=
  if Word.isPowerOfTwo c.maxCount.toNat then do
    let _ ← c.bytes
    answer
  else .error .notPowerOfTwo

def requiredLen (c : WordConfig) : Except Refusal UInt64 := c.planned c.total

def requiredBytes (c : WordConfig) : Except Refusal UInt64 := c.planned c.bytes

theorem checked_toNat {overflow : Bool} {x : UInt64} {n : Nat}
    (hover : overflow = true ↔ ¬Word.Fits n) (hexact : Word.Fits n → x.toNat = n) :
    (checked overflow x).map UInt64.toNat = Layout.fit n := by
  rw [checked, Layout.fit]
  by_cases hfits : Word.Fits n
  · rw [if_pos hfits, if_neg (fun h => hover.1 h hfits), ← hexact hfits]
    rfl
  · rw [if_neg hfits, if_pos (hover.2 hfits)]
    rfl

theorem toNat_scratchLen (c : WordConfig) : c.scratchLen.toNat = c.config.scratchLen := by
  have hlt := c.maxCount.toNat_lt
  rw [scratchLen, Config.scratchLen, config]
  split
  · rw [UInt64.toNat_add, UInt64.toNat_div]
    simp
    omega
  · rfl

theorem checked_add (x y : UInt64) :
    (checked (x.toBitVec.uaddOverflow y.toBitVec) (x + y)).map UInt64.toNat =
      Layout.fit (x.toNat + y.toNat) := by
  apply checked_toNat
  · rw [BitVec.uaddOverflow, decide_eq_true_eq, Word.Fits, Nat.not_lt]
    rfl
  · intro hfits
    rw [UInt64.toNat_add]
    exact Nat.mod_eq_of_lt hfits

theorem checked_mul (x y : UInt64) :
    (checked (x.toBitVec.umulOverflow y.toBitVec) (x * y)).map UInt64.toNat =
      Layout.fit (x.toNat * y.toNat) := by
  apply checked_toNat
  · rw [BitVec.umulOverflow, decide_eq_true_eq, Word.Fits, Nat.not_lt]
    rfl
  · intro hfits
    rw [UInt64.toNat_mul]
    exact Nat.mod_eq_of_lt hfits

theorem total_toNat (c : WordConfig) :
    c.total.map UInt64.toNat = Layout.total ⟨c.config.maxCount, c.config.scratchLen⟩ := by
  rw [total, Layout.total, ← toNat_scratchLen]
  exact checked_add c.maxCount c.scratchLen

theorem bytes_toNat (c : WordConfig) :
    c.bytes.map UInt64.toNat = Layout.bytes ⟨c.config.maxCount, c.config.scratchLen⟩ := by
  rw [bytes, Layout.bytes, ← total_toNat]
  cases c.total with
  | error cause => rfl
  | ok total => exact checked_mul total 8

theorem planned_toNat {c : WordConfig} {answer : Except Refusal UInt64}
    {f : Layout → Except Refusal Nat}
    (h : answer.map UInt64.toNat = f ⟨c.config.maxCount, c.config.scratchLen⟩) :
    (c.planned answer).map UInt64.toNat = c.config.layout >>= f := by
  rw [planned, Config.layout]
  change _ = (if Word.isPowerOfTwo c.maxCount.toNat = true then _ else _) >>= f
  split
  · simp only [← bytes_toNat]
    cases c.bytes with
    | error cause => rfl
    | ok bytes => exact h
  · rfl

theorem requiredLen_toNat (c : WordConfig) :
    c.requiredLen.map UInt64.toNat = c.config.requiredLen :=
  planned_toNat c.total_toNat

theorem requiredBytes_toNat (c : WordConfig) :
    c.requiredBytes.map UInt64.toNat = c.config.requiredBytes :=
  planned_toNat c.bytes_toNat

end WordConfig

namespace Context

theorem map_cellPlan (c : Config) : (cellPlan c).map Prod.snd = c.requiredLen := by
  rw [cellPlan, Config.requiredLen]
  cases c.layout with
  | error cause => rfl
  | ok layout =>
      rw [ok_bind, ok_bind]
      cases layout.total <;> rfl

variable [Scalar α] [UnitRoots α]

theorem newIn_sized (c : Config) (buffer : Array (Cplx α)) :
    ∃ creation, Context.newIn c buffer = .ok creation ∧
      (∀ cause, c.requiredLen = .error cause → creation.context = .error cause) ∧
      ∀ required, c.requiredLen = .ok required →
        (creation.context = .error (.bufferTooSmall required) ↔ buffer.size < required) ∧
        (required ≤ buffer.size → ∃ ctx, creation.context = .ok ctx ∧ ctx.config = c) := by
  rw [← map_cellPlan]
  obtain ⟨cause, hplan, h⟩ | ⟨layout, required, hl, rfl, hshort, h⟩ |
    ⟨layout, creation, hl, hlen, h, hc⟩ := newIn_cases c buffer
  · rw [hplan]
    refine ⟨_, h, ?_, ?_⟩
    · rintro _ ⟨⟩
      rfl
    · rintro _ ⟨⟩
  · rw [cellPlan_eq_ok_iff.2 ⟨hl, rfl⟩]
    refine ⟨_, h, ?_, ?_⟩
    · rintro _ ⟨⟩
    · rintro _ ⟨⟩
      exact ⟨iff_of_true rfl hshort, fun hle => absurd hshort (Nat.not_lt.2 hle)⟩
  · rw [cellPlan_eq_ok_iff.2 ⟨hl, rfl⟩]
    refine ⟨creation, h, ?_, ?_⟩
    · rintro _ ⟨⟩
    · rintro _ ⟨⟩
      rw [hc]
      exact ⟨iff_of_false (by simp) (Nat.not_lt.2 hlen), fun _ => ⟨_, rfl, rfl⟩⟩

theorem sizing_exact :
    (∀ c : Config,
      (c.requiredLen = .error .notPowerOfTwo ↔ ¬c.maxCount.isPowerOfTwo) ∧
      (c.requiredBytes = .error .notPowerOfTwo ↔ ¬c.maxCount.isPowerOfTwo) ∧
      (c.requiredLen = .error .tooLarge ↔
        c.maxCount.isPowerOfTwo ∧ 2 ^ 64 - 1 < c.storageBytes) ∧
      (c.requiredBytes = .error .tooLarge ↔
        c.maxCount.isPowerOfTwo ∧ 2 ^ 64 - 1 < c.storageBytes) ∧
      (c.maxCount.isPowerOfTwo → c.storageBytes ≤ 2 ^ 64 - 1 →
        c.requiredLen = .ok c.storageLen ∧ c.requiredBytes = .ok c.storageBytes)) ∧
    (∀ c : WordConfig, c.scratchLen.toNat = c.config.scratchLen ∧
      c.requiredLen.map UInt64.toNat = c.config.requiredLen ∧
      c.requiredBytes.map UInt64.toNat = c.config.requiredBytes) ∧
    ∀ (c : Config) (buffer : Array (Cplx α)), ∃ creation,
      Context.newIn c buffer = .ok creation ∧
      (∀ cause, c.requiredLen = .error cause → creation.context = .error cause) ∧
      ∀ required, c.requiredLen = .ok required →
        (creation.context = .error (.bufferTooSmall required) ↔ buffer.size < required) ∧
        (required ≤ buffer.size → ∃ ctx, creation.context = .ok ctx ∧ ctx.config = c) := by
  refine ⟨fun c => ?_, fun c => ?_, newIn_sized⟩
  · rw [c.requiredLen_eq_sized, c.requiredBytes_eq_sized]
    exact ⟨Config.sized_eq_notPowerOfTwo_iff, Config.sized_eq_notPowerOfTwo_iff,
      Config.sized_eq_tooLarge_iff, Config.sized_eq_tooLarge_iff,
      fun hp hle => ⟨Config.sized_of_le hp hle, Config.sized_of_le hp hle⟩⟩
  · exact ⟨c.toNat_scratchLen, c.requiredLen_toNat, c.requiredBytes_toNat⟩

theorem sizing_exact_at_limit :
    let last : Config := ⟨2 ^ 60, .both, true, true⟩
    let next : Config := ⟨2 ^ 61, .forward, false, true⟩
    let odd : Config := ⟨2 ^ 61 + 1, .forward, false, true⟩
    let small : Array (Cplx Float32) := Array.replicate 3 ⟨5, 7⟩
    last.requiredLen = .ok (2 ^ 60 + 2 ^ 59 + 1) ∧
    last.requiredBytes = .ok (2 ^ 63 + 2 ^ 62 + 8) ∧
    next.requiredLen = .error .tooLarge ∧ odd.requiredBytes = .error .notPowerOfTwo ∧
    (∃ creation, Context.newIn last small = .ok creation ∧
      creation.context = .error (.bufferTooSmall (2 ^ 60 + 2 ^ 59 + 1))) ∧
    ∃ creation ctx, Context.newIn ⟨2, .forward, true, true⟩ small = .ok creation ∧
      creation.context = .ok ctx := by
  intro last next odd small
  obtain ⟨hsizes, -, hnew⟩ := @sizing_exact Float32 _ _
  obtain ⟨-, -, -, -, hlast⟩ := hsizes last
  have hlastLen : last.storageLen = 2 ^ 60 + 2 ^ 59 + 1 := by decide
  have hlastBytes : last.storageBytes = 2 ^ 63 + 2 ^ 62 + 8 := by decide
  rw [hlastLen, hlastBytes] at hlast
  obtain ⟨hlen, hbytes⟩ := hlast ⟨60, rfl⟩ (by decide)
  obtain ⟨-, -, hnext, -⟩ := hsizes next
  obtain ⟨-, hodd, -⟩ := hsizes odd
  obtain ⟨creation, h, -, hfits⟩ := hnew last small
  obtain ⟨creation', h', -, hfits'⟩ := hnew ⟨2, .forward, true, true⟩ small
  have hlen' : (⟨2, .forward, true, true⟩ : Config).requiredLen = .ok 2 := by decide
  obtain ⟨ctx, hc, -⟩ := (hfits' 2 hlen').2 (by simp [small])
  refine ⟨hlen, hbytes, hnext.2 ⟨⟨61, rfl⟩, by decide⟩, hodd.2 ?_, ⟨creation, h, ?_⟩,
    creation', ctx, h', hc⟩
  · decide
  · exact (hfits _ hlen).1.2 (by simp [small])

end Context

end DyadicFourier
