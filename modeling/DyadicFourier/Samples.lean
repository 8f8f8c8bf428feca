import DyadicFourier.Cplx
import DyadicFourier.Fault

namespace DyadicFourier

variable {α : Type}

def pairs (samples : Array α) : Checked (Array (Cplx α)) :=
  if samples.size % 2 = 0 then
    .ok (Array.ofFn fun i : Fin (samples.size / 2) => ⟨samples[2 * i.val], samples[2 * i.val + 1]⟩)
  else .error (.indivisible samples.size 2)

def flatten (points : Array (Cplx α)) : Array α :=
  points.flatMap fun z => #[z.re, z.im]

end DyadicFourier
