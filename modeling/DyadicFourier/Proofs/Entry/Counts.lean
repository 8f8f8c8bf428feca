import DyadicFourier.Proofs.Entry.Safety

namespace DyadicFourier.Entry

variable {x : Int32}

def pred? (x : Int32) : Option Int32 := if -2 ^ 31 ≤ x.toInt - 1 then some (x - 1) else none

/-- The test for a power of two from left to right, which stops at a count that is not positive. -/
def testInOrder (x : Int32) : Option Bool :=
  if 0 < x then (pred? x).map fun y => x &&& y == 0 else some false

theorem toInt_pos_iff : 0 < x.toInt ↔ 0 < x := by
  rw [Int32.lt_iff_toInt_lt, Int32.toInt_zero]

theorem toInt_pred (h : 0 < x) : (x - 1).toInt = x.toInt - 1 := by
  have hpos := toInt_pos_iff.2 h
  have hlt := x.toInt_lt
  rw [Int32.toInt_sub, Int32.toInt_one]
  apply Int.bmod_eq_of_le <;> omega

theorem testInOrder_eq (x : Int32) : testInOrder x = some (isPowerOfTwo x) := by
  by_cases h : 0 < x
  · have hpos := toInt_pos_iff.2 h
    have hpred : pred? x = some (x - 1) := if_pos (by omega)
    rw [testInOrder, if_pos h, hpred, isPowerOfTwo, decide_eq_true h]
    rfl
  · rw [testInOrder, if_neg h, isPowerOfTwo, decide_eq_false h]
    rfl

theorem toNat_toBitVec (h : 0 ≤ x.toInt) : x.toBitVec.toNat = x.toInt.toNat := by
  have hcases := BitVec.toInt_eq_toNat_cond x.toBitVec
  have hlt := x.toBitVec.isLt
  change x.toInt = _ at hcases
  split at hcases <;> omega

theorem and_pred_eq_zero_iff (h : 0 < x) :
    x &&& (x - 1) = 0 ↔ x.toInt.toNat.isPowerOfTwo := by
  have hpos := toInt_pos_iff.2 h
  have hpred := toInt_pred h
  have hnat : (x - 1).toBitVec.toNat = x.toInt.toNat - 1 := by
    rw [toNat_toBitVec (by omega), hpred]
    omega
  have hne : x.toInt.toNat ≠ 0 := by omega
  rw [← Nat.and_sub_one_eq_zero_iff_isPowerOfTwo hne, Int32.eq_iff_toBitVec_eq, Int32.toBitVec_and,
    ← BitVec.toNat_inj, BitVec.toNat_and, toNat_toBitVec (Int.le_of_lt hpos), hnat]
  rfl

theorem isPowerOfTwo_iff_toNat : isPowerOfTwo x = true ↔ 0 < x ∧ x.toInt.toNat.isPowerOfTwo := by
  rw [isPowerOfTwo, Bool.and_eq_true, decide_eq_true_eq, beq_iff_eq]
  constructor
  · rintro ⟨h, hand⟩
    exact ⟨h, (and_pred_eq_zero_iff h).1 hand⟩
  · rintro ⟨h, hpow⟩
    exact ⟨h, (and_pred_eq_zero_iff h).2 hpow⟩

theorem isPowerOfTwo_iff_exists : isPowerOfTwo x = true ↔ ∃ k ≤ 30, x.toInt = 2 ^ k := by
  have hlt := x.toInt_lt
  rw [isPowerOfTwo_iff_toNat, ← toInt_pos_iff]
  constructor
  · rintro ⟨hpos, k, hk⟩
    -- one bit of the 32 holds the sign
    have hpow : 2 ^ k < 2 ^ 31 := by omega
    have hk' : k < 31 := (Nat.pow_lt_pow_iff_right Nat.one_lt_two).1 hpow
    refine ⟨k, by omega, ?_⟩
    rw [← Int.toNat_of_nonneg (Int.le_of_lt hpos), hk]
    norm_cast
  · rintro ⟨k, -, hk⟩
    refine ⟨by rw [hk]; exact Int.pow_pos (by decide), k, ?_⟩
    rw [hk]
    norm_cast

theorem isPowerOfTwo_of_toInt {k : Nat} (h : x.toInt = 2 ^ k) : isPowerOfTwo x = true := by
  have hlt := x.toInt_lt
  have hpow : (2 : Int) ^ k < 2 ^ 31 := h ▸ hlt
  have hk : k < 31 := (pow_lt_pow_iff_right₀ (by decide)).1 hpow
  exact isPowerOfTwo_iff_exists.2 ⟨k, Nat.le_of_lt_succ hk, h⟩

theorem isPowerOfTwo_eq_false (h : ∀ k : Nat, x.toInt ≠ 2 ^ k) : isPowerOfTwo x = false := by
  rw [Bool.eq_false_iff]
  intro hp
  obtain ⟨k, -, hk⟩ := isPowerOfTwo_iff_exists.1 hp
  exact h k hk

theorem word_of_toInt {k : Nat} (h : x.toInt = 2 ^ k) : word x = 2 ^ k := by
  rw [word_eq (pos_of_isPowerOfTwo (isPowerOfTwo_of_toInt h)), h]
  norm_cast

theorem word_emod (x : Int32) : (word x : Int) = x.toInt % 2 ^ 64 := by
  have hcases := BitVec.toInt_eq_toNat_cond x.toInt64.toBitVec
  have hlt := x.toInt64.toBitVec.isLt
  change x.toInt64.toInt = _ at hcases
  rw [Int32.toInt_toInt64] at hcases
  change (x.toInt64.toBitVec.toNat : Int) = _
  split at hcases <;> omega

theorem isPowerOfTwo_word (x : Int32) : Word.isPowerOfTwo (word x) = isPowerOfTwo x := by
  rw [Bool.eq_iff_iff, Word.isPowerOfTwo_iff, isPowerOfTwo_iff_toNat, ← toInt_pos_iff]
  have hword := word_emod x
  have hlow := x.le_toInt
  have hlt := x.toInt_lt
  by_cases hpos : 0 < x.toInt
  · rw [word_eq (toInt_pos_iff.1 hpos)]
    exact ⟨fun h => ⟨hpos, h⟩, fun h => h.2⟩
  · refine ⟨?_, fun h => absurd h.1 hpos⟩
    rintro ⟨k, hk⟩
    have hzero : word x ≠ 0 := by
      rw [hk]
      exact (Nat.two_pow_pos k).ne'
    -- the sign of a negative count fills the high bits of its word, so that none stands alone
    have hhigh : 2 ^ 63 < 2 ^ k := by omega
    have hfits : 2 ^ k < 2 ^ 64 := by omega
    have hgt := (Nat.pow_lt_pow_iff_right Nat.one_lt_two).1 hhigh
    have hlt' := (Nat.pow_lt_pow_iff_right Nat.one_lt_two).1 hfits
    omega

end DyadicFourier.Entry
