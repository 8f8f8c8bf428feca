import DyadicFourier.Refusal
import DyadicFourier.Sense
import DyadicFourier.Word

namespace DyadicFourier

def pointBytes : Nat := 8

/-- How the cells of a context are divided: first the table, then the scratch. -/
structure Layout where
  tableLen : Nat
  scratchLen : Nat
  deriving DecidableEq, Repr

namespace Layout

def fit (n : Nat) : Except Refusal Nat :=
  if Word.Fits n then .ok n else .error .tooLarge

def total (l : Layout) : Except Refusal Nat := fit (l.tableLen + l.scratchLen)

def bytes (l : Layout) : Except Refusal Nat := do
  fit ((← l.total) * pointBytes)

theorem fit_eq_ok_iff {n k : Nat} : fit n = .ok k ↔ Word.Fits n ∧ n = k := by
  unfold fit
  split <;> simp_all

end Layout

structure Config where
  maxCount : Nat := 1
  direction : Direction := default
  real : Bool := false
  simd : Bool := true
  deriving DecidableEq, Repr

namespace Config

/-- An inverse transform to real samples prepares its bins in scratch cells. -/
def scratchLen (c : Config) : Nat :=
  if c.real && c.direction.supports .inverse then c.maxCount / 2 + 1 else 0

def layout (c : Config) : Except Refusal Layout :=
  if Word.isPowerOfTwo c.maxCount then do
    let l : Layout := ⟨c.maxCount, c.scratchLen⟩
    let _ ← l.bytes
    return l
  else .error .notPowerOfTwo

def requiredLen (c : Config) : Except Refusal Nat := do
  (← c.layout).total

def requiredBytes (c : Config) : Except Refusal Nat := do
  (← c.layout).bytes

def describe (c : Config) : String :=
  s!"FftConfig \x7b max_count: {c.maxCount}, direction: {c.direction.name}, " ++
    s!"real: {c.real}, simd: {c.simd} \x7d"

end Config

end DyadicFourier
