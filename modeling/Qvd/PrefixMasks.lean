import Mathlib.Data.Nat.Bitwise
import Mathlib.Algebra.Order.Ring.Nat
import Mathlib.Tactic.Ring

/-!
Masks of bits: the high mask with `p` bits above `z` low ones, and what it and the low bits do to a
number.
-/
namespace Qvd.PrefixMasks

def highMask (p z : ℕ) : ℕ := (2 ^ p - 1) <<< z

variable {n p z i : ℕ}

theorem testBit_highMask : (highMask p z).testBit i = (decide (z ≤ i) && decide (i < p + z)) := by
  unfold highMask
  rw [Nat.testBit_shiftLeft, Nat.testBit_two_pow_sub_one]
  by_cases h : z ≤ i
  · rw [decide_eq_true h]
    exact congrArg (true && ·) (decide_eq_decide.mpr (by omega))
  · rw [decide_eq_false h, Bool.false_and, Bool.false_and]

theorem highMask_lt : highMask p z < 2 ^ (p + z) := by
  unfold highMask
  rw [Nat.shiftLeft_eq, Nat.pow_add]
  exact Nat.mul_lt_mul_of_pos_right (Nat.sub_lt (Nat.two_pow_pos p) Nat.one_pos) (Nat.two_pow_pos z)

theorem testBit_of_lt_two_pow (hn : n < 2 ^ p) (hi : p ≤ i) : n.testBit i = false :=
  Nat.testBit_lt_two_pow (hn.trans_le (Nat.pow_le_pow_right Nat.two_pos hi))

theorem testBit_div_mul : (n / 2 ^ z * 2 ^ z).testBit i = (decide (z ≤ i) && n.testBit i) := by
  rw [← Nat.shiftRight_eq_div_pow, ← Nat.shiftLeft_eq, Nat.testBit_shiftLeft, Nat.testBit_shiftRight]
  by_cases h : z ≤ i
  · rw [Nat.add_sub_cancel' h]
  · rw [decide_eq_false h, Bool.false_and, Bool.false_and]

/-- The high mask clears the low bits. -/
theorem and_highMask (hn : n < 2 ^ (p + z)) : n &&& highMask p z = n / 2 ^ z * 2 ^ z := by
  refine Nat.eq_of_testBit_eq fun i => ?_
  rw [Nat.testBit_and, testBit_highMask, testBit_div_mul]
  by_cases hi : i < p + z
  · rw [decide_eq_true hi, Bool.and_true, Bool.and_comm]
  · rw [testBit_of_lt_two_pow hn (Nat.le_of_not_lt hi), Bool.false_and, Bool.and_false]

/-- Setting the low bits. -/
theorem or_lowBits : n ||| (2 ^ z - 1) = n / 2 ^ z * 2 ^ z + (2 ^ z - 1) := by
  have hlt : 2 ^ z - 1 < 2 ^ z := Nat.sub_lt (Nat.two_pow_pos z) Nat.one_pos
  rw [← Nat.shiftLeft_eq, Nat.shiftLeft_add_eq_or_of_lt hlt]
  refine Nat.eq_of_testBit_eq fun i => ?_
  rw [Nat.testBit_or, Nat.testBit_or, Nat.shiftLeft_eq, testBit_div_mul, Nat.testBit_two_pow_sub_one]
  by_cases h : z ≤ i
  · rw [decide_eq_true h, Bool.true_and]
  · rw [decide_eq_true (Nat.lt_of_not_le h), Bool.or_true, Bool.or_true]

/-- What the high mask leaves of all bits, in a word that is longer. -/
theorem allOnes_and_not_highMask {w : ℕ} (hw : p + z ≤ w) :
    (2 ^ (p + z) - 1) &&& ((2 ^ w - 1) ^^^ highMask p z) = 2 ^ z - 1 := by
  refine Nat.eq_of_testBit_eq fun i => ?_
  rw [Nat.testBit_and, Nat.testBit_xor, testBit_highMask, Nat.testBit_two_pow_sub_one,
    Nat.testBit_two_pow_sub_one, Nat.testBit_two_pow_sub_one]
  by_cases hz : z ≤ i
  · by_cases hp : i < p + z
    · simp [hz, hp, Nat.not_lt.mpr hz, hp.trans_le hw]
    · simp [hp, Nat.not_lt.mpr hz]
  · have hlt := Nat.lt_of_not_le hz
    simp [hz, hlt, show i < p + z by omega, show i < w by omega]

/-- The bits of a high mask, counted. -/
theorem sum_bits_highMask :
    ((List.range (p + z)).map fun i => (highMask p z >>> i) &&& 1).sum = p := by
  have hbit : ∀ i, (highMask p z >>> i) &&& 1 = (decide (z ≤ i) && decide (i < p + z)).toNat := by
    intro i
    rw [Nat.and_one_is_mod, ← testBit_highMask, Nat.testBit]
    rw [Nat.one_and_eq_mod_two]
    rcases Nat.mod_two_eq_zero_or_one (highMask p z >>> i) with h | h
    · rw [h]
      rfl
    · rw [h]
      rfl
  have hsum : ∀ k, z ≤ k → k ≤ p + z →
      ((List.range k).map fun i => (highMask p z >>> i) &&& 1).sum = k - z := by
    intro k hzk hk
    induction k, hzk using Nat.le_induction with
    | base =>
      rw [Nat.sub_self]
      refine List.sum_eq_zero_iff_forall_eq_nat.mpr fun x hx => ?_
      obtain ⟨i, hi, rfl⟩ := List.mem_map.mp hx
      rw [hbit, decide_eq_false (Nat.not_le.mpr (List.mem_range.mp hi))]
      rfl
    | succ k hzk ih =>
      rw [List.range_succ, List.map_append, List.sum_append, ih (Nat.le_of_succ_le hk),
        List.map_singleton, List.sum_singleton, hbit, decide_eq_true hzk,
        decide_eq_true (Nat.lt_of_succ_le hk), Nat.succ_sub hzk]
      rfl
  rw [hsum (p + z) (Nat.le_add_left z p) le_rfl, Nat.add_sub_cancel]

end Qvd.PrefixMasks
