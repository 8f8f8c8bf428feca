import DyadicFourier.Fault

namespace DyadicFourier.Word

def limit : Nat := 1 <<< 64

/-- One past the largest byte size that an allocation may have. -/
def allocationLimit : Nat := 1 <<< 63

def Fits (n : Nat) : Prop := n < limit

instance (n : Nat) : Decidable (Fits n) := inferInstanceAs (Decidable (n < limit))

def fit (n : Nat) : Checked Nat :=
  if Fits n then .ok n else .error (.overflow n)

def plus (m n : Nat) : Checked Nat := fit (m + n)

def times (m n : Nat) : Checked Nat := fit (m * n)

def minus (m n : Nat) : Checked Nat :=
  if n ≤ m then .ok (m - n) else .error (.underflow m n)

def isPowerOfTwo (n : Nat) : Bool := n == 1 <<< n.log2

theorem Fits.mono {m n : Nat} (hmn : m ≤ n) (hn : Fits n) : Fits m :=
  Nat.lt_of_le_of_lt hmn hn

theorem fit_of_fits {n : Nat} (h : Fits n) : fit n = .ok n := by
  simp [fit, h]

theorem plus_of_fits {m n : Nat} (h : Fits (m + n)) : plus m n = .ok (m + n) :=
  fit_of_fits h

theorem times_of_fits {m n : Nat} (h : Fits (m * n)) : times m n = .ok (m * n) :=
  fit_of_fits h

theorem minus_eq_ok_iff {m n k : Nat} : minus m n = .ok k ↔ n ≤ m ∧ m - n = k := by
  unfold minus
  split
  · simp_all
  · simp
    omega

end DyadicFourier.Word
