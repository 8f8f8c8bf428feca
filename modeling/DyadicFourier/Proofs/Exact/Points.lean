import DyadicFourier.Proofs.Context.Replies
import DyadicFourier.Proofs.Exact.Cascade

namespace DyadicFourier

def Holds {β : Type} (value : β → ℂ) (cells : Array β) (count : ℕ) (f : ℕ → ℂ) : Prop :=
  ∀ k < count, (cells[k]?).map value = some (f k)

theorem holds_fill {β : Type} {value : β → ℂ} {cells : Array β} {count : ℕ} {g : ℕ → β}
    {f : ℕ → ℂ} (hc : count ≤ cells.size) (h : ∀ k < count, value (g k) = f k) :
    Holds value (Cells.fill cells count g) count f := by
  intro k hk
  rw [Cells.getElem?_fill_of_lt hk hc, Option.map_some, h k hk]

section Values

variable {β : Type} {value : β → ℂ} {cells : Array β} {count : ℕ} {f g : ℕ → ℂ}

theorem Holds.congr (h : Holds value cells count f) (hfg : ∀ k < count, f k = g k) :
    Holds value cells count g := by
  intro k hk
  rw [h k hk, hfg k hk]

theorem Holds.le_size (h : Holds value cells count f) : count ≤ cells.size := by
  by_contra hlt
  have hlast := h cells.size (Nat.lt_of_not_le hlt)
  rw [Array.getElem?_size, Option.map_none] at hlast
  cases hlast

theorem Holds.value_getD (h : Holds value cells count f) (d : β) {k : ℕ} (hk : k < count) :
    value (cells[k]?.getD d) = f k := by
  have hget := h k hk
  have hsize : k < cells.size := Nat.lt_of_lt_of_le hk h.le_size
  rw [Array.getElem?_eq_getElem hsize, Option.map_some, Option.some_inj] at hget
  rw [Array.getElem?_eq_getElem hsize, Option.getD_some, hget]

end Values

theorem Holds.points_eq {cells : Array (Cplx ℝ)} {count : ℕ} {f : ℕ → ℂ}
    (h : Holds Cplx.toComplex cells count f) {k : ℕ} (hk : k < count) :
    (points cells k).toComplex = f k :=
  h.value_getD Cplx.zero hk

theorem Holds.numbers_eq {cells : Array ℝ} {count : ℕ} {f : ℕ → ℂ}
    (h : Holds Complex.ofReal cells count f) {k : ℕ} (hk : k < count) :
    ((numbers cells k : ℝ) : ℂ) = f k :=
  h.value_getD Scalar.zero hk

namespace Context

variable {ctx : Context ℝ} {j : ℕ} {input out : Array (Cplx ℝ)}

theorem Sound.transformComplex_exact (h : ctx.Sound) {sense : Sense}
    (hr : ctx.refusal? (2 ^ j) sense = none) (hin : 2 ^ j ≤ input.size) (hout : 2 ^ j ≤ out.size) :
    ∃ after, ctx.transformComplex sense (2 ^ j) input out = .ok (.accepted after) ∧
      Holds Cplx.toComplex after (2 ^ j)
        (dft sense (2 ^ j) fun n => (points input n).toComplex) := by
  rw [h.transformComplex_eq, complexReply_of_sizes hr hin hout]
  refine ⟨_, rfl, holds_fill hout fun k hk => ?_⟩
  exact toComplex_cascade_view _ sense (h.divides hr) _ hk

theorem complex_transforms_exact (h : ctx.Reachable) (hj : 2 ^ j ≤ ctx.maxCount)
    (hin : 2 ^ j ≤ input.size) (hout : 2 ^ j ≤ out.size) :
    (ctx.config.direction.supports .forward = true →
      ∃ after, ctx.forwardComplex (2 ^ j) input out = .ok (.accepted after) ∧
        Holds Cplx.toComplex after (2 ^ j)
          (dft .forward (2 ^ j) fun n => (points input n).toComplex)) ∧
    (ctx.config.direction.supports .inverse = true →
      ∃ after, ctx.inverseComplex (2 ^ j) input out = .ok (.accepted after) ∧
        Holds Cplx.toComplex after (2 ^ j)
          (dft .inverse (2 ^ j) fun n => (points input n).toComplex)) := by
  constructor
  · intro hs
    exact h.sound.transformComplex_exact (refusal?_two_pow hj hs) hin hout
  · intro hs
    exact h.sound.transformComplex_exact (refusal?_two_pow hj hs) hin hout

theorem complex_transforms_exact_sixteen :
    let ctx : Context ℝ := built ⟨32, .both, true, true⟩ ⟨32, 17⟩ (.fresh 49)
    let input : Array (Cplx ℝ) := Array.replicate 16 ⟨1, 2⟩
    let sums (sense : Sense) := dft sense (2 ^ 4) fun n => (points input n).toComplex
    (∃ after, ctx.forwardComplex (2 ^ 4) input input = .ok (.accepted after) ∧
      Holds Cplx.toComplex after (2 ^ 4) (sums .forward)) ∧
    ∃ after, ctx.inverseComplex (2 ^ 4) input input = .ok (.accepted after) ∧
      Holds Cplx.toComplex after (2 ^ 4) (sums .inverse) := by
  intro ctx input sums
  have hl : ctx.config.layout = .ok ⟨32, 17⟩ := by decide
  have h : ctx.Reachable := reachable_fresh hl (by decide)
  have hsize : 2 ^ 4 ≤ input.size := by simp [input]
  have hboth := complex_transforms_exact h (by decide) hsize hsize
  exact ⟨hboth.1 rfl, hboth.2 rfl⟩

end Context

end DyadicFourier
