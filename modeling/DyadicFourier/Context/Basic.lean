import DyadicFourier.Config
import DyadicFourier.Reply
import DyadicFourier.Storage

namespace DyadicFourier

variable {α : Type}

structure Context (α : Type) where
  config : Config
  layout : Layout
  kernel : Kernel
  storage : Storage α
  deriving DecidableEq, Repr

namespace Context

def maxCount (ctx : Context α) : Nat := ctx.config.maxCount

def ownsBuffer (ctx : Context α) : Bool := ctx.storage.isOwned

def scratchLen (ctx : Context α) : Nat := ctx.layout.scratchLen

def tableSense (ctx : Context α) : Sense := ctx.config.direction.tableSense

def table (ctx : Context α) : Checked (Array (Cplx α)) :=
  Cells.slice ctx.storage.cells 0 ctx.layout.tableLen

def scratch (ctx : Context α) : Checked (Array (Cplx α)) :=
  Cells.slice ctx.storage.cells ctx.layout.tableLen (ctx.layout.tableLen + ctx.layout.scratchLen)

def withScratch (ctx : Context α) (scratch : Array (Cplx α)) : Checked (Context α) := do
  let cells ← Cells.splice ctx.storage.cells ctx.layout.tableLen scratch
  return { ctx with storage := ctx.storage.withCells cells }

def refusal? (ctx : Context α) (count : Nat) (sense : Sense) : Option Refusal :=
  if !Word.isPowerOfTwo count then some .notPowerOfTwo
  else if ctx.maxCount < count then some (.countExceedsCapacity count ctx.maxCount)
  else if !ctx.config.direction.supports sense then some .directionUnsupported
  else none

def realRefusal? (ctx : Context α) (count : Nat) (sense : Sense) : Option Refusal :=
  if ctx.config.real then ctx.refusal? count sense else some .notRealContext

def release (ctx : Context α) : Option (Array (Cplx α)) := ctx.storage.release

def describe (ctx : Context α) : String :=
  s!"FftContext \x7b max_count: {ctx.maxCount}, direction: {ctx.config.direction.name}, " ++
    s!"real: {ctx.config.real}, kernel: {ctx.kernel.name}, owns_buffer: {ctx.ownsBuffer} \x7d"

theorem refusal?_eq_none_iff {ctx : Context α} {count : Nat} {sense : Sense} :
    ctx.refusal? count sense = none ↔ Word.isPowerOfTwo count = true ∧ count ≤ ctx.maxCount ∧
      ctx.config.direction.supports sense = true := by
  unfold refusal?
  grind

theorem realRefusal?_eq_none_iff {ctx : Context α} {count : Nat} {sense : Sense} :
    ctx.realRefusal? count sense = none ↔
      ctx.config.real = true ∧ ctx.refusal? count sense = none := by
  unfold realRefusal?
  grind

end Context

end DyadicFourier
