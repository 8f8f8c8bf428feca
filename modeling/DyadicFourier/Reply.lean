import DyadicFourier.Event

namespace DyadicFourier

structure Reply (β : Type) where
  refusal : Option Refusal
  after : β
  events : List Event
  deriving DecidableEq, Repr

namespace Reply

variable {β γ : Type}

def accepted (after : β) : Reply β := ⟨none, after, []⟩

def refused (cause : Refusal) (unchanged : β) (events : List Event) : Reply β :=
  ⟨some cause, unchanged, events⟩

def isAccepted (r : Reply β) : Bool := r.refusal.isNone

def map (f : β → γ) (r : Reply β) : Reply γ := ⟨r.refusal, f r.after, r.events⟩

@[simp] theorem isAccepted_accepted (after : β) : (accepted after).isAccepted = true := rfl

@[simp] theorem isAccepted_refused (cause : Refusal) (unchanged : β) (events : List Event) :
    (refused cause unchanged events).isAccepted = false := rfl

end Reply

end DyadicFourier
