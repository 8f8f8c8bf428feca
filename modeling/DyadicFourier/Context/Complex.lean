import DyadicFourier.Context.Basic
import DyadicFourier.Transform

namespace DyadicFourier.Context

variable {α : Type} [Scalar α]

def transformComplex (sense : Sense) (ctx : Context α) (count : Nat)
    (input out : Array (Cplx α)) : Checked (Reply (Array (Cplx α))) :=
  match ctx.refusal? count sense with
  | some cause => .ok (.refused cause out [.complexRejected count sense cause])
  | none =>
    if input.size < count ∨ out.size < count then .ok (.refused .sizeMismatch out [])
    else do
      let tw ← Twiddles.ofTable (← ctx.table) count ctx.tableSense sense
      let points ← transform ctx.kernel tw input 0 1 (← Cells.slice out 0 count)
      return .accepted (← Cells.splice out 0 points)

def forwardComplex : Context α → Nat → Array (Cplx α) → Array (Cplx α) →
    Checked (Reply (Array (Cplx α))) :=
  transformComplex .forward

def inverseComplex : Context α → Nat → Array (Cplx α) → Array (Cplx α) →
    Checked (Reply (Array (Cplx α))) :=
  transformComplex .inverse

def process (sense : Sense) (ctx : Context α) (input out : Array (Cplx α)) :
    Checked (Reply (Array (Cplx α))) :=
  transformComplex sense ctx ctx.maxCount input out

end DyadicFourier.Context
