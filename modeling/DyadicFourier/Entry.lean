import DyadicFourier.Context.Complex
import DyadicFourier.Context.Creation
import DyadicFourier.Context.Real

namespace DyadicFourier.Entry

variable {α β : Type}

def isPowerOfTwo (x : Int32) : Bool := 0 < x && (x &&& (x - 1)) == 0

/-- A count as a word, its sign carried into the high bits. -/
def word (x : Int32) : Nat := x.toInt64.toUInt64.toNat

structure Created (α : Type) where
  context : Option (Context α)
  buffer : Option (Array (Cplx α))
  slot : Option Nat
  events : List Event
  deriving DecidableEq, Repr

namespace Created

def nothing (buffer : Option (Array (Cplx α))) (slot : Option Nat) (events : List Event) :
    Created α :=
  ⟨none, buffer, slot, events⟩

def ofCreation (slot : Option Nat) (c : Creation α) : Created α :=
  ⟨c.context.toOption, c.buffer, slot, c.events⟩

end Created

/-- Creates a context in the caller's buffer, or in cells of its own if there is neither a buffer
nor a size slot. A slot without enough bytes to go with it gets the bytes that are needed. -/
def create [Scalar α] [UnitRoots α] (maxCount : Int32) (direction : Direction) (real : Bool)
    (buffer : Option (Array (Cplx α))) (slot : Option Nat) : Checked (Created α) :=
  if isPowerOfTwo maxCount then
    let config : Config := { maxCount := word maxCount, direction, real }
    match config.requiredBytes with
    | .error _ => .ok (.nothing buffer slot [])
    | .ok required =>
      match buffer, slot with
      | some _, none => .ok (.nothing buffer slot [])
      | none, some _ => .ok (.nothing buffer (some required) [])
      | some cells, some available =>
        if available < required ∨ cells.size * pointBytes < required then
          .ok (.nothing buffer (some required) [])
        else do
          return .ofCreation slot (← Context.newIn config cells)
      | none, none => do
        return .ofCreation slot (← Context.new config)
  else .ok (.nothing buffer slot [.badMaxCount maxCount])

structure Outcome (β : Type) where
  accepted : Bool
  after : β
  events : List Event
  deriving DecidableEq, Repr

namespace Outcome

def rejected (after : β) : Outcome β := ⟨false, after, []⟩

def ofReply (r : Reply β) : Outcome β := ⟨r.isAccepted, r.after, r.events⟩

end Outcome

def withCount (ctx : Option (Context α)) (count : Int32) (out : β)
    (run : Context α → Nat → Checked (Reply β)) : Checked (Outcome β) :=
  match ctx with
  | none => .ok (.rejected out)
  | some ctx =>
    if isPowerOfTwo count then do
      return .ofReply (← run ctx (word count))
    else .ok (.rejected out)

variable [Scalar α]

def forwardComplex (ctx : Option (Context α)) (count : Int32) (input out : Array (Cplx α)) :
    Checked (Outcome (Array (Cplx α))) :=
  withCount ctx count out fun ctx count => ctx.forwardComplex count input out

def inverseComplex (ctx : Option (Context α)) (count : Int32) (input out : Array (Cplx α)) :
    Checked (Outcome (Array (Cplx α))) :=
  withCount ctx count out fun ctx count => ctx.inverseComplex count input out

def forwardReal (ctx : Option (Context α)) (count : Int32) (input : Array α)
    (out : Array (Cplx α)) : Checked (Outcome (Array (Cplx α))) :=
  withCount ctx count out fun ctx count => ctx.forwardReal count input out

structure InverseArgs (α : Type) where
  context : Option (Context α)
  output : Array α
  scratch : Option (Array (Cplx α))
  slot : Option Nat
  deriving DecidableEq, Repr

/-- With neither scratch nor size slot the context's own scratch serves. A slot alone, or one that
claims too little, gets the bytes that are needed. -/
def inverseReal (count : Int32) (input : Array (Cplx α)) (args : InverseArgs α) :
    Checked (Outcome (InverseArgs α)) :=
  match args.context with
  | none => .ok (.rejected args)
  | some ctx =>
    if isPowerOfTwo count then do
      let required ← Word.times (Context.inverseRealScratchLen (word count)) pointBytes
      match args.scratch, args.slot with
      | none, some _ => return .rejected { args with slot := some required }
      | some _, none => return .rejected args
      | some scratch, some available =>
        if available < required then
          return .rejected { args with slot := some required }
        else
          let reply ← ctx.inverseRealWith (word count) input ⟨args.output, scratch⟩
          return .ofReply (reply.map fun ws =>
            { args with output := ws.output, scratch := some ws.scratch })
      | none, none =>
        let reply ← ctx.inverseReal (word count) input args.output
        return .ofReply (reply.map fun after =>
          { args with context := some after.1, output := after.2 })
    else .ok (.rejected args)

end DyadicFourier.Entry
