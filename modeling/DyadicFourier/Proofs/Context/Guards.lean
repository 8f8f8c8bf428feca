import DyadicFourier.Reply

namespace DyadicFourier

namespace Reply

variable {β γ : Type} {check : Option Refusal} {report : Refusal → List Event} {cells : β}
  {reply : Reply β}

def guarded (check : Option Refusal) (report : Refusal → List Event) (cells : β)
    (reply : Reply β) : Reply β :=
  match check with
  | some cause => .refused cause cells (report cause)
  | none => reply

theorem guarded_none : guarded none report cells reply = reply := rfl

theorem isAccepted_guarded : (guarded check report cells reply).isAccepted = true ↔
    check = none ∧ reply.isAccepted = true := by
  cases check <;> simp [guarded]

theorem refusal_guarded : (guarded check report cells reply).refusal = check.or reply.refusal := by
  cases check <;> rfl

theorem map_guarded (f : β → γ) : (guarded check report cells reply).map f =
    guarded check report (f cells) (reply.map f) := by
  cases check <;> rfl

/-- A refusal leaves the cells. -/
def Atomic (cells : β) (reply : Reply β) : Prop :=
  reply.isAccepted = false → reply.after = cells

theorem atomic_accepted (cells after : β) : (accepted after).Atomic cells :=
  fun h => nomatch h

theorem Atomic.guarded (h : reply.Atomic cells) :
    (guarded check report cells reply).Atomic cells := by
  cases check with
  | some cause => exact fun _ => rfl
  | none => exact h

theorem ok_guarded {run : Checked (Reply β)} (h : check = none → run = .ok reply) :
    (match check with
      | some cause => Except.ok (refused cause cells (report cause))
      | none => run) = .ok (guarded check report cells reply) := by
  cases check with
  | some cause => rfl
  | none => exact h rfl

end Reply

section Shortage

variable {β : Type} {cells : β} {reply : Reply β} {run : Checked (Reply β)}
  {input inputNeed output outputNeed scratch need : Nat}

def lengthRefusal? (input inputNeed output outputNeed : Nat) : Option Refusal :=
  if input < inputNeed ∨ output < outputNeed then some .sizeMismatch else none

theorem lengthRefusal?_eq_none_iff :
    lengthRefusal? input inputNeed output outputNeed = none ↔
      inputNeed ≤ input ∧ outputNeed ≤ output := by
  unfold lengthRefusal?
  grind

theorem Reply.ok_guarded_length (h : inputNeed ≤ input → outputNeed ≤ output → run = .ok reply) :
    (if input < inputNeed ∨ output < outputNeed then .ok (.refused .sizeMismatch cells [])
      else run) = .ok (.guarded (lengthRefusal? input inputNeed output outputNeed) (fun _ => [])
        cells reply) := by
  rw [lengthRefusal?]
  split
  · rfl
  · exact h (by omega) (by omega)

def scratchRefusal? (scratch need : Nat) : Option Refusal :=
  if scratch < need then some (.bufferTooSmall need) else none

theorem scratchRefusal?_eq_none_iff :
    scratchRefusal? scratch need = none ↔ need ≤ scratch := by
  unfold scratchRefusal?
  grind

theorem Reply.ok_guarded_scratch (h : need ≤ scratch → run = .ok reply) :
    (if scratch < need then .ok (.refused (.bufferTooSmall need) cells []) else run) =
      .ok (.guarded (scratchRefusal? scratch need) (fun _ => []) cells reply) := by
  rw [scratchRefusal?]
  split
  · rfl
  · exact h (by omega)

end Shortage

end DyadicFourier
