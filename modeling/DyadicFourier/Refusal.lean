namespace DyadicFourier

inductive Refusal where
  | notPowerOfTwo
  | countExceedsCapacity (count maxCount : Nat)
  | sizeMismatch
  | bufferTooSmall (required : Nat)
  | directionUnsupported
  | notRealContext
  | tooLarge
  deriving DecidableEq, Repr

namespace Refusal

def message : Refusal → String
  | .notPowerOfTwo => "Size must be a non-zero power of 2"
  | .countExceedsCapacity count maxCount =>
      s!"Transform size {count} exceeds the context maximum of {maxCount}"
  | .sizeMismatch => "Data buffer is shorter than the transform size"
  | .bufferTooSmall required =>
      s!"Backing buffer is too small, {required} complex elements required"
  | .directionUnsupported => "Context was not created for this transform direction"
  | .notRealContext => "Context was not created for real transforms"
  | .tooLarge => "Buffer size overflows the address space"

def name : Refusal → String
  | .notPowerOfTwo => "NotPowerOfTwo"
  | .countExceedsCapacity _ _ => "CountExceedsCapacity"
  | .sizeMismatch => "SizeMismatch"
  | .bufferTooSmall _ => "BufferTooSmall"
  | .directionUnsupported => "DirectionUnsupported"
  | .notRealContext => "NotRealContext"
  | .tooLarge => "TooLarge"

def describe (r : Refusal) : String :=
  match r with
  | .countExceedsCapacity count maxCount =>
      s!"{r.name} \x7b count: {count}, max_count: {maxCount} \x7d"
  | .bufferTooSmall required => s!"{r.name} \x7b required: {required} \x7d"
  | _ => r.name

end Refusal

end DyadicFourier
