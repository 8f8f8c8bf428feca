namespace DyadicFourier

/-- What a machine with 64-bit words and bounded cells would trap on. -/
inductive Fault where
  | outOfRange (index size : Nat)
  | badSpan (start stop size : Nat)
  | overflow (value : Nat)
  | underflow (minuend subtrahend : Nat)
  | indivisible (size parts : Nat)
  | capacity (bytes : Nat)
  deriving DecidableEq, Repr

/-- A computation in which every cell access, word operation and assumption is checked. -/
abbrev Checked := Except Fault

section Bind

variable {ε β γ : Type}

@[simp] theorem ok_bind (x : β) (f : β → Except ε γ) : ((.ok x : Except ε β) >>= f) = f x := rfl

@[simp] theorem pure_eq_ok (x : β) : (pure x : Except ε β) = .ok x := rfl

theorem bind_eq_ok_iff {x : Except ε β} {f : β → Except ε γ} {c : γ} :
    (x >>= f) = .ok c ↔ ∃ b, x = .ok b ∧ f b = .ok c := by
  cases x with
  | error fault =>
      constructor
      · intro h
        cases h
      · rintro ⟨b, hb, _⟩
        cases hb
  | ok b => simp

end Bind

def Fault.describe : Fault → String
  | .outOfRange index size => s!"cell {index} of {size}"
  | .badSpan start stop size => s!"cells {start} to {stop} of {size}"
  | .overflow value => s!"{value} needs more than one word"
  | .underflow minuend subtrahend => s!"{minuend} minus {subtrahend} is negative"
  | .indivisible size parts => s!"{size} does not split into {parts} equal parts"
  | .capacity bytes => s!"{bytes} bytes cannot be allocated"

end DyadicFourier
