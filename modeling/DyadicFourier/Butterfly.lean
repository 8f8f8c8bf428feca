import DyadicFourier.Quarters
import DyadicFourier.Sense

namespace DyadicFourier

variable {α : Type} [Scalar α]

def butterfly (sense : Sense) (f : Row α) : Row α :=
  let sum02 := f.x0 + f.x2
  let diff02 := f.x0 - f.x2
  let sum13 := f.x1 + f.x3
  let diff13 := f.x1 - f.x3
  match sense with
  | .forward => ⟨sum02 + sum13, diff02.subI diff13, sum02 - sum13, diff02.addI diff13⟩
  | .inverse => ⟨sum02 + sum13, diff02.addI diff13, sum02 - sum13, diff02.subI diff13⟩

end DyadicFourier
