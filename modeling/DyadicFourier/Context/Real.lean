import DyadicFourier.Context.Basic
import DyadicFourier.Spectrum

namespace DyadicFourier.Context

variable {α : Type} [Scalar α]

def inverseRealScratchLen (count : Nat) : Nat := count / 2 + 1

def forwardReal (ctx : Context α) (count : Nat) (input : Array α) (out : Array (Cplx α)) :
    Checked (Reply (Array (Cplx α))) :=
  match ctx.realRefusal? count .forward with
  | some cause => .ok (.refused cause out [.forwardRealRejected count cause])
  | none =>
    if input.size < count ∨ out.size < count / 2 + 1 then .ok (.refused .sizeMismatch out [])
    else do
      return .accepted (← spectrum ctx.kernel (← ctx.table) ctx.tableSense count input out)

def synthesize (ctx : Context α) (count : Nat) (input : Array (Cplx α)) (ws : Workspace α) :
    Checked (Reply (Workspace α)) :=
  if input.size < count / 2 + 1 ∨ ws.output.size < count then .ok (.refused .sizeMismatch ws [])
  else if ws.scratch.size < inverseRealScratchLen count then
    .ok (.refused (.bufferTooSmall (inverseRealScratchLen count)) ws [])
  else do
    return .accepted (← synthesis ctx.kernel (← ctx.table) ctx.tableSense count input ws)

def inverseRealWith (ctx : Context α) (count : Nat) (input : Array (Cplx α)) (ws : Workspace α) :
    Checked (Reply (Workspace α)) :=
  match ctx.realRefusal? count .inverse with
  | some cause => .ok (.refused cause ws [.inverseRealRejected count cause])
  | none => ctx.synthesize count input ws

def inverseReal (ctx : Context α) (count : Nat) (input : Array (Cplx α)) (output : Array α) :
    Checked (Reply (Context α × Array α)) :=
  match ctx.realRefusal? count .inverse with
  | some cause => .ok (.refused cause (ctx, output) [.inverseRealRejected count cause])
  | none => do
    let reply ← ctx.synthesize count input ⟨output, ← ctx.scratch⟩
    let ctx ← ctx.withScratch reply.after.scratch
    return reply.map fun ws => (ctx, ws.output)

end DyadicFourier.Context
