import DyadicFourier.Kernel
import DyadicFourier.Refusal

namespace DyadicFourier

inductive Event where
  | vectorFound
  | created (maxCount : Nat) (direction : Direction) (real : Bool) (kernel : Kernel) (owned : Bool)
  | bufferTooSmall (required available : Nat)
  | badMaxCount (maxCount : Int32)
  | complexRejected (count : Nat) (sense : Sense) (cause : Refusal)
  | forwardRealRejected (count : Nat) (cause : Refusal)
  | inverseRealRejected (count : Nat) (cause : Refusal)
  deriving DecidableEq, Repr

namespace Event

def level : Event → String
  | .vectorFound => "TRACE"
  | _ => "DEBUG"

def message : Event → String
  | .vectorFound => "sse2 detected, using vectorized combine"
  | .created maxCount direction real kernel owned =>
      s!"created fft context max_count={maxCount} direction={direction.name} real={real} " ++
        s!"kernel={kernel.name} owned={owned}"
  | .bufferTooSmall required available =>
      s!"fft context buffer too small required={required} available={available}"
  | .badMaxCount maxCount =>
      s!"fft context rejected, not a positive power of two max_count={maxCount.toInt}"
  | .complexRejected count sense cause =>
      s!"complex transform rejected count={count} inverse={sense == .inverse} err={cause.message}"
  | .forwardRealRejected count cause =>
      s!"forward real transform rejected count={count} err={cause.message}"
  | .inverseRealRejected count cause =>
      s!"inverse real transform rejected count={count} err={cause.message}"

def line (e : Event) : String := e.level ++ " " ++ e.message

end Event

end DyadicFourier
