import DyadicFourier.Proofs.Context.Reachable

namespace DyadicFourier

variable {α : Type}

@[simp] theorem Storage.withCells_withCells (s : Storage α) (cells cells' : Array (Cplx α)) :
    (s.withCells cells).withCells cells' = s.withCells cells' := by
  cases s <;> rfl

namespace Context

variable [Scalar α] [UnitRoots α]

def withRows (ctx : Context α) (scratch : Array (Cplx α)) : Context α :=
  { ctx with
    storage := ctx.storage.withCells (unitTable ctx.maxCount ctx.tableSense ++ scratch) }

@[simp] theorem config_withRows (ctx : Context α) (scratch : Array (Cplx α)) :
    (ctx.withRows scratch).config = ctx.config := rfl

@[simp] theorem layout_withRows (ctx : Context α) (scratch : Array (Cplx α)) :
    (ctx.withRows scratch).layout = ctx.layout := rfl

@[simp] theorem cells_withRows (ctx : Context α) (scratch : Array (Cplx α)) :
    (ctx.withRows scratch).storage.cells = unitTable ctx.maxCount ctx.tableSense ++ scratch := by
  simp [withRows]

@[simp] theorem withRows_withRows (ctx : Context α) (scratch scratch' : Array (Cplx α)) :
    (ctx.withRows scratch).withRows scratch' = ctx.withRows scratch' := by
  simp only [withRows, Storage.withCells_withCells]
  rfl

namespace Sound

variable {ctx : Context α} {scratch : Array (Cplx α)}

theorem size_table (h : ctx.Sound) :
    (unitTable ctx.maxCount ctx.tableSense : Array (Cplx α)).size = ctx.layout.tableLen := by
  rw [size_unitTable, (Config.layout_eq_ok_iff.1 h.layout_eq).2.2]
  rfl

theorem scratchLen_eq (h : ctx.Sound) : ctx.layout.scratchLen = ctx.config.scratchLen := by
  rw [(Config.layout_eq_ok_iff.1 h.layout_eq).2.2]

theorem size_scratch (h : ctx.Sound) (hs : ctx.scratch = .ok scratch) :
    scratch.size = ctx.layout.scratchLen := by
  obtain ⟨_, hs', hsize⟩ := h.scratch_eq
  rw [hs] at hs'
  cases hs'
  exact hsize

theorem cells_eq (h : ctx.Sound) (hs : ctx.scratch = .ok scratch) :
    ctx.storage.cells = unitTable ctx.maxCount ctx.tableSense ++ scratch :=
  Cells.append_of_slices h.table_eq hs h.size_cells

theorem withRows_self (h : ctx.Sound) (hs : ctx.scratch = .ok scratch) :
    ctx.withRows scratch = ctx := by
  rw [withRows, ← h.cells_eq hs, Storage.withCells_cells]

theorem withScratch_rows (h : ctx.Sound) (hsize : scratch.size = ctx.layout.scratchLen) :
    ctx.withScratch scratch = .ok (ctx.withRows scratch) := by
  obtain ⟨old, hold, hlen⟩ := h.scratch_eq
  rw [withScratch, h.cells_eq hold, ← h.size_table, Cells.splice_append (hsize.trans hlen.symm)]
  rfl

theorem sound_withRows (h : ctx.Sound) (hsize : scratch.size = ctx.layout.scratchLen) :
    (ctx.withRows scratch).Sound where
  layout_eq := h.layout_eq
  size_cells := by rw [cells_withRows, Array.size_append, h.size_table, hsize, layout_withRows]
  table_eq := by
    rw [table, cells_withRows, layout_withRows, ← h.size_table]
    exact Cells.slice_append_front _ _

theorem scratch_withRows (h : ctx.Sound) (hsize : scratch.size = ctx.layout.scratchLen) :
    (ctx.withRows scratch).scratch = .ok scratch := by
  rw [Context.scratch, cells_withRows, layout_withRows, ← hsize, ← h.size_table]
  exact Cells.slice_append_back _ _

end Sound

end Context

end DyadicFourier
