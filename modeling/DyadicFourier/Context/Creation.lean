import DyadicFourier.Context.Basic
import DyadicFourier.Twiddle

namespace DyadicFourier

variable {α : Type}

/-- The outcome of creating a context. The buffer is the caller's, as long as no context has it. -/
structure Creation (α : Type) where
  context : Except Refusal (Context α)
  buffer : Option (Array (Cplx α))
  events : List Event
  deriving Repr

namespace Context

variable [Scalar α] [UnitRoots α]

def build (config : Config) (layout : Layout) (storage : Storage α) : Checked (Creation α) := do
  let table := unitTable layout.tableLen config.direction.tableSense
  let storage := storage.withCells (← Cells.splice storage.cells 0 table)
  let kernel := Kernel.select config.simd
  return {
    context := .ok ⟨config, layout, kernel, storage⟩
    buffer := none
    events := (if kernel.isVector then [.vectorFound] else []) ++
      [.created config.maxCount config.direction config.real kernel storage.isOwned] }

def cellPlan (config : Config) : Except Refusal (Layout × Nat) := do
  let layout ← config.layout
  return (layout, ← layout.total)

def new (config : Config) : Checked (Creation α) :=
  match cellPlan config with
  | .error cause => .ok ⟨.error cause, none, []⟩
  | .ok (layout, required) =>
    if required * pointBytes < Word.allocationLimit then
      build config layout (.fresh required)
    else .error (.capacity (required * pointBytes))

def newIn (config : Config) (buffer : Array (Cplx α)) : Checked (Creation α) :=
  match cellPlan config with
  | .error cause => .ok ⟨.error cause, some buffer, []⟩
  | .ok (layout, required) =>
    if buffer.size < required then
      .ok ⟨.error (.bufferTooSmall required), some buffer, [.bufferTooSmall required buffer.size]⟩
    else build config layout (.borrow buffer required)

end Context

end DyadicFourier
