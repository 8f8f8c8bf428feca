import DyadicFourier.Cells
import DyadicFourier.Cplx

namespace DyadicFourier

variable {α : Type}

/-- The cells of a context, its own or lent by a caller. Of a longer lent buffer the context has
only the front. -/
inductive Storage (α : Type) where
  | owned (cells : Array (Cplx α))
  | lent (cells rest : Array (Cplx α))
  deriving DecidableEq, Repr

namespace Storage

def fresh [Scalar α] (len : Nat) : Storage α := .owned (Array.replicate len Cplx.zero)

def borrow (buffer : Array (Cplx α)) (len : Nat) : Storage α :=
  .lent (buffer.extract 0 len) (buffer.extract len buffer.size)

def cells : Storage α → Array (Cplx α)
  | .owned cells => cells
  | .lent cells _ => cells

def withCells : Storage α → Array (Cplx α) → Storage α
  | .owned _, cells => .owned cells
  | .lent _ rest, cells => .lent cells rest

def isOwned : Storage α → Bool
  | .owned _ => true
  | .lent _ _ => false

def release : Storage α → Option (Array (Cplx α))
  | .owned _ => none
  | .lent cells rest => some (cells ++ rest)

@[simp] theorem cells_withCells (s : Storage α) (cells : Array (Cplx α)) :
    (s.withCells cells).cells = cells := by
  cases s <;> rfl

@[simp] theorem withCells_cells (s : Storage α) : s.withCells s.cells = s := by
  cases s <;> rfl

end Storage

end DyadicFourier
