import DyadicFourier.Context.Creation
import DyadicFourier.Context.Real
import DyadicFourier.Proofs.Transform.Views

namespace DyadicFourier

variable {α : Type}

namespace Word

theorem isPowerOfTwo_iff {n : Nat} : isPowerOfTwo n = true ↔ ∃ k, n = 2 ^ k := by
  rw [isPowerOfTwo, Nat.one_shiftLeft, beq_iff_eq]
  constructor
  · intro h
    exact ⟨n.log2, h⟩
  · rintro ⟨k, rfl⟩
    rw [Nat.log2_two_pow]

theorem isPowerOfTwo_pow (k : Nat) : isPowerOfTwo (2 ^ k) = true :=
  isPowerOfTwo_iff.2 ⟨k, rfl⟩

end Word

namespace Layout

theorem bytes_eq_ok_iff {l : Layout} {n : Nat} : l.bytes = .ok n ↔
    Word.Fits ((l.tableLen + l.scratchLen) * pointBytes) ∧
      (l.tableLen + l.scratchLen) * pointBytes = n := by
  simp only [bytes, total, bind_eq_ok_iff, fit_eq_ok_iff]
  constructor
  · rintro ⟨_, ⟨_, rfl⟩, h⟩
    exact h
  · intro h
    exact ⟨_, ⟨h.1.mono (Nat.le_mul_of_pos_right _ (by decide)), rfl⟩, h⟩

end Layout

namespace Config

theorem layout_eq_ok_iff {c : Config} {l : Layout} : c.layout = .ok l ↔
    Word.isPowerOfTwo c.maxCount = true ∧
      Word.Fits ((c.maxCount + c.scratchLen) * pointBytes) ∧ l = ⟨c.maxCount, c.scratchLen⟩ := by
  by_cases hp : Word.isPowerOfTwo c.maxCount = true
  · simp only [layout, if_pos hp, bind_eq_ok_iff, Layout.bytes_eq_ok_iff, pure_eq_ok,
      Except.ok.injEq]
    constructor
    · rintro ⟨_, ⟨hf, _⟩, rfl⟩
      exact ⟨hp, hf, rfl⟩
    · rintro ⟨_, hf, rfl⟩
      exact ⟨_, ⟨hf, rfl⟩, rfl⟩
  · rw [layout, if_neg hp]
    constructor
    · intro h
      cases h
    · intro h
      exact absurd h.1 hp

end Config

variable [Scalar α] [UnitRoots α]

namespace Context

theorem cellPlan_eq_ok_iff {c : Config} {l : Layout} {n : Nat} :
    cellPlan c = .ok (l, n) ↔ c.layout = .ok l ∧ n = l.tableLen + l.scratchLen := by
  simp only [cellPlan, Layout.total, bind_eq_ok_iff, pure_eq_ok, Except.ok.injEq, Prod.mk.injEq,
    Layout.fit_eq_ok_iff]
  constructor
  · rintro ⟨_, hl, _, ⟨_, rfl⟩, rfl, rfl⟩
    exact ⟨hl, rfl⟩
  · rintro ⟨hl, rfl⟩
    obtain ⟨_, hf, rfl⟩ := Config.layout_eq_ok_iff.1 hl
    exact ⟨_, hl, _, ⟨hf.mono (Nat.le_mul_of_pos_right _ (by decide)), rfl⟩, rfl, rfl⟩

/-- The contexts that a caller can come to hold. Only an inverse transform with the context's own
scratch changes a context. -/
inductive Reachable : Context α → Prop
  | new {config : Config} {c : Creation α} {ctx : Context α} :
      Context.new config = .ok c → c.context = .ok ctx → Reachable ctx
  | newIn {config : Config} {buffer : Array (Cplx α)} {c : Creation α} {ctx : Context α} :
      Context.newIn config buffer = .ok c → c.context = .ok ctx → Reachable ctx
  | inverseReal {ctx : Context α} {count : Nat} {input : Array (Cplx α)} {output : Array α}
      {reply : Reply (Context α × Array α)} : Reachable ctx →
      ctx.inverseReal count input output = .ok reply → Reachable reply.after.1

structure Sound (ctx : Context α) : Prop where
  layout_eq : ctx.config.layout = .ok ctx.layout
  size_cells : ctx.storage.cells.size = ctx.layout.tableLen + ctx.layout.scratchLen
  table_eq : ctx.table = .ok (unitTable ctx.maxCount ctx.tableSense)

def built (config : Config) (layout : Layout) (storage : Storage α) : Context α :=
  ⟨config, layout, Kernel.select config.simd, storage.withCells
    (Cells.fill storage.cells layout.tableLen fun k =>
      config.direction.tableSense.orient (UnitRoots.root k layout.tableLen))⟩

theorem build_context (config : Config) {layout : Layout} {storage : Storage α}
    (hs : layout.tableLen ≤ storage.cells.size) :
    ∃ c, build config layout storage = .ok c ∧ c.context = .ok (built config layout storage) := by
  rw [build, unitTable_eq_tabulate, Cells.splice_tabulate hs]
  exact ⟨_, rfl, rfl⟩

theorem sound_built {config : Config} {layout : Layout} {storage : Storage α}
    (hl : config.layout = .ok layout)
    (hs : storage.cells.size = layout.tableLen + layout.scratchLen) :
    (built config layout storage).Sound := by
  have htable : layout.tableLen = config.maxCount := by
    rw [(Config.layout_eq_ok_iff.1 hl).2.2]
  constructor
  · exact hl
  · simpa [built] using hs
  · have hle : layout.tableLen ≤ storage.cells.size := by omega
    have hslice := Cells.slice_fill (f := fun k =>
      config.direction.tableSense.orient (UnitRoots.root k layout.tableLen : Cplx α))
      (Nat.le_refl layout.tableLen) hle
    rw [table, unitTable_eq_tabulate]
    change Cells.slice (storage.withCells _).cells 0 layout.tableLen =
      .ok (Cells.tabulate config.maxCount fun k => _)
    rw [Storage.cells_withCells, hslice, htable]
    rfl

section Outcomes

variable {config : Config} {layout : Layout} {buffer : Array (Cplx α)} {c : Creation α}
  {ctx : Context α}

theorem new_makes (hl : config.layout = .ok layout)
    (hcap : (layout.tableLen + layout.scratchLen) * pointBytes < Word.allocationLimit) :
    ∃ c : Creation α, Context.new config = .ok c ∧
      c.context = .ok (built config layout (.fresh (layout.tableLen + layout.scratchLen))) := by
  obtain ⟨c, hb, hc⟩ : ∃ c : Creation α,
      build config layout (.fresh (layout.tableLen + layout.scratchLen)) = .ok c ∧ _ :=
    build_context config (by simp [Storage.fresh, Storage.cells])
  refine ⟨c, ?_, hc⟩
  rw [new, cellPlan_eq_ok_iff.2 ⟨hl, rfl⟩]
  exact (if_pos hcap).trans hb

theorem newIn_makes (hl : config.layout = .ok layout)
    (hlen : layout.tableLen + layout.scratchLen ≤ buffer.size) :
    ∃ c : Creation α, Context.newIn config buffer = .ok c ∧ c.context =
      .ok (built config layout (.borrow buffer (layout.tableLen + layout.scratchLen))) := by
  obtain ⟨c, hb, hc⟩ : ∃ c : Creation α,
      build config layout (.borrow buffer (layout.tableLen + layout.scratchLen)) = .ok c ∧ _ :=
    build_context config (by simp [Storage.borrow, Storage.cells]; omega)
  refine ⟨c, ?_, hc⟩
  rw [newIn, cellPlan_eq_ok_iff.2 ⟨hl, rfl⟩]
  exact (if_neg (Nat.not_lt.2 hlen)).trans hb

theorem new_cases (config : Config) :
    (∃ cause, cellPlan config = .error cause ∧
      (Context.new config : Checked (Creation α)) = .ok ⟨.error cause, none, []⟩) ∨
    (∃ layout, config.layout = .ok layout ∧
      ¬(layout.tableLen + layout.scratchLen) * pointBytes < Word.allocationLimit ∧
      (Context.new config : Checked (Creation α)) =
        .error (.capacity ((layout.tableLen + layout.scratchLen) * pointBytes))) ∨
    ∃ (layout : Layout) (c : Creation α), config.layout = .ok layout ∧
      (layout.tableLen + layout.scratchLen) * pointBytes < Word.allocationLimit ∧
      Context.new config = .ok c ∧
      c.context = .ok (built config layout (.fresh (layout.tableLen + layout.scratchLen))) := by
  cases hplan : cellPlan config with
  | error cause => exact .inl ⟨cause, rfl, by rw [new, hplan]⟩
  | ok plan =>
      obtain ⟨layout, required⟩ := plan
      obtain ⟨hl, rfl⟩ := cellPlan_eq_ok_iff.1 hplan
      by_cases hcap : (layout.tableLen + layout.scratchLen) * pointBytes < Word.allocationLimit
      · obtain ⟨c, h, hc⟩ := new_makes (α := α) hl hcap
        exact .inr (.inr ⟨layout, c, hl, hcap, h, hc⟩)
      · exact .inr (.inl ⟨layout, hl, hcap, by rw [new, hplan]; exact if_neg hcap⟩)

theorem newIn_cases (config : Config) (buffer : Array (Cplx α)) :
    (∃ cause, cellPlan config = .error cause ∧
      Context.newIn config buffer = .ok ⟨.error cause, some buffer, []⟩) ∨
    (∃ layout required, config.layout = .ok layout ∧
      required = layout.tableLen + layout.scratchLen ∧ buffer.size < required ∧
      Context.newIn config buffer = .ok ⟨.error (.bufferTooSmall required), some buffer,
        [.bufferTooSmall required buffer.size]⟩) ∨
    ∃ (layout : Layout) (c : Creation α), config.layout = .ok layout ∧
      layout.tableLen + layout.scratchLen ≤ buffer.size ∧
      Context.newIn config buffer = .ok c ∧ c.context =
        .ok (built config layout (.borrow buffer (layout.tableLen + layout.scratchLen))) := by
  cases hplan : cellPlan config with
  | error cause => exact .inl ⟨cause, rfl, by rw [newIn, hplan]⟩
  | ok plan =>
      obtain ⟨layout, required⟩ := plan
      obtain ⟨hl, hrequired⟩ := cellPlan_eq_ok_iff.1 hplan
      by_cases hshort : buffer.size < required
      · exact .inr (.inl ⟨layout, required, hl, hrequired, hshort,
          by rw [newIn, hplan]; exact if_pos hshort⟩)
      · subst hrequired
        obtain ⟨c, h, hc⟩ := newIn_makes hl (Nat.not_lt.1 hshort)
        exact .inr (.inr ⟨layout, c, hl, Nat.not_lt.1 hshort, h, hc⟩)

theorem new_inv (h : Context.new config = .ok c) (hc : c.context = .ok ctx) :
    ∃ layout, config.layout = .ok layout ∧
      (layout.tableLen + layout.scratchLen) * pointBytes < Word.allocationLimit ∧
      ctx = built config layout (.fresh (layout.tableLen + layout.scratchLen)) := by
  obtain ⟨cause, -, h'⟩ | ⟨layout, -, -, h'⟩ | ⟨layout, c', hl, hcap, h', hc'⟩ :=
    new_cases (α := α) config
  · cases h.symm.trans h'
    cases hc
  · cases h.symm.trans h'
  · cases h.symm.trans h'
    cases hc.symm.trans hc'
    exact ⟨layout, hl, hcap, rfl⟩

theorem newIn_inv (h : Context.newIn config buffer = .ok c) (hc : c.context = .ok ctx) :
    ∃ layout, config.layout = .ok layout ∧
      layout.tableLen + layout.scratchLen ≤ buffer.size ∧
      ctx = built config layout (.borrow buffer (layout.tableLen + layout.scratchLen)) := by
  obtain ⟨cause, -, h'⟩ | ⟨layout, required, -, -, -, h'⟩ | ⟨layout, c', hl, hlen, h', hc'⟩ :=
    newIn_cases config buffer
  · cases h.symm.trans h'
    cases hc
  · cases h.symm.trans h'
    cases hc
  · cases h.symm.trans h'
    cases hc.symm.trans hc'
    exact ⟨layout, hl, hlen, rfl⟩

end Outcomes

theorem reachable_fresh {config : Config} {layout : Layout} (hl : config.layout = .ok layout)
    (hcap : (layout.tableLen + layout.scratchLen) * pointBytes < Word.allocationLimit) :
    (built config layout (.fresh (layout.tableLen + layout.scratchLen)) : Context α).Reachable := by
  obtain ⟨c, h, hc⟩ := new_makes (α := α) hl hcap
  exact .new h hc

namespace Sound

variable {ctx : Context α}

theorem scratch_eq (h : ctx.Sound) : ∃ scratch, ctx.scratch = .ok scratch ∧
    scratch.size = ctx.layout.scratchLen := by
  have hslice := Cells.slice_of_size (Nat.le_add_right ctx.layout.tableLen ctx.layout.scratchLen)
    (Nat.le_of_eq h.size_cells.symm)
  refine ⟨_, hslice, ?_⟩
  rw [Cells.size_slice hslice]
  omega

end Sound

end Context

end DyadicFourier
