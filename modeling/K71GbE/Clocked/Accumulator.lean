/-
This file is about registers that accumulate signed values and are read back
without their lowest bits.

A register of `w` bits keeps the running total modulo `2^w`. As long as the total
fits, it is read back exactly, and the bits from bit `n` on are the total divided
by `2^n` and rounded down: the mean, where `2^n` values were added.
-/

import Mathlib.Algebra.Order.BigOperators.Group.Finset
import Mathlib.Data.BitVec
import Mathlib.Tactic.Linarith
import Mathlib.Tactic.Ring

namespace Clocked

variable {w n k : Nat}

/-! ### Totals -/

/-- The total of `count` values from the `first` on. -/
def total (values : Nat → Int) (first count : Nat) : Int :=
  ∑ t ∈ Finset.range count, values (first + t)

theorem total_zero (values : Nat → Int) (first : Nat) : total values first 0 = 0 := rfl

theorem total_succ (values : Nat → Int) (first count : Nat) :
    total values first (count + 1) = total values first count + values (first + count) :=
  Finset.sum_range_succ _ _

theorem total_one (values : Nat → Int) (first : Nat) : total values first 1 = values first := by
  rw [total_succ, total_zero, Int.zero_add, Nat.add_zero]

/-- The total of values that fit in `k` bits, two's complement. -/
theorem total_bounds {values : Nat → Int} (low : ∀ t, -2 ^ (k - 1) ≤ values t)
    (high : ∀ t, values t < 2 ^ (k - 1)) (first count : Nat) :
    -(count * 2 ^ (k - 1)) ≤ total values first count ∧
      total values first count ≤ count * (2 ^ (k - 1) - 1) := by
  induction count with
  | zero => simp [total_zero]
  | succ count inductionHypothesis =>
    have above := low (first + count)
    have below := high (first + count)
    rw [total_succ]
    push_cast
    constructor <;> linarith

/-- A single value is in the total if it is among those that were added. -/
theorem total_single (p : Nat) (value : Int) (first count : Nat) :
    total (fun t => if t = p then value else 0) first count =
      if first ≤ p ∧ p < first + count then value else 0 := by
  induction count with
  | zero => rw [total_zero, if_neg (by omega)]
  | succ count inductionHypothesis =>
    rw [total_succ, inductionHypothesis]
    rcases Nat.lt_trichotomy p (first + count) with before | rfl | behind
    · simp only [before, before.ne', if_false, Int.add_zero, and_true]
      exact if_congr (by omega) rfl rfl
    · rw [if_neg (by omega), if_pos rfl, if_pos (by omega), Int.zero_add]
    · rw [if_neg (by omega), if_neg (by omega), if_neg (by omega), Int.add_zero]

/-! ### Registers -/

theorem toNat_ofInt_cast (w : Nat) (value : Int) :
    ((BitVec.ofInt w value).toNat : Int) = value % 2 ^ w := by
  rw [BitVec.toNat_ofInt, Int.toNat_of_nonneg (Int.emod_nonneg _ (by positivity))]
  push_cast
  rfl

/-- The bits from bit `n` on are those of the value divided by `2^n`. -/
theorem extractLsb'_ofInt (fits : n + k ≤ w) (value : Int) :
    (BitVec.ofInt w value).extractLsb' n k = BitVec.ofInt k (value / 2 ^ n) := by
  obtain ⟨more, rfl⟩ := Nat.exists_eq_add_of_le fits
  refine BitVec.eq_of_toNat_eq (Int.ofNat_inj.mp ?_)
  rw [toNat_ofInt_cast, BitVec.extractLsb'_toNat, Nat.shiftRight_eq_div_pow]
  push_cast
  rw [toNat_ofInt_cast]
  have split : value = value % 2 ^ (n + k + more) + 2 ^ n * (2 ^ k * (2 ^ more *
      (value / 2 ^ (n + k + more)))) := by
    have whole := Int.emod_add_mul_ediv value (2 ^ (n + k + more))
    rw [pow_add, pow_add] at whole ⊢
    linarith
  conv_rhs => rw [split]
  rw [Int.add_mul_ediv_left _ _ (by positivity), Int.add_mul_emod_self_left]

/-- The mean of `2^n` values of `k` bits, from a register that is wide enough for their total. -/
theorem mean_of_total (positive : 0 < k) (fits : n + k ≤ w) {values : Nat → Int}
    (low : ∀ t, -2 ^ (k - 1) ≤ values t) (high : ∀ t, values t < 2 ^ (k - 1)) (first : Nat) :
    (BitVec.ofInt w (total values first (2 ^ n))).toInt = total values first (2 ^ n) ∧
      ((BitVec.ofInt w (total values first (2 ^ n))).extractLsb' n k).toInt =
        total values first (2 ^ n) / 2 ^ n := by
  obtain ⟨above, below⟩ := total_bounds low high first (2 ^ n)
  push_cast at above below
  generalize total values first (2 ^ n) = sum at above below
  have scale : (2 : Int) ^ (n + k - 1) = 2 ^ n * 2 ^ (k - 1) := by
    rw [← pow_add]
    congr 1
    omega
  have wide : (2 : Int) ^ (n + k - 1) ≤ 2 ^ (w - 1) :=
    pow_le_pow_right₀ (by decide) (by omega)
  have one : (0 : Int) < 2 ^ n := by positivity
  constructor
  · exact BitVec.toInt_ofInt_eq_self (by omega) (by linarith) (by linarith)
  · rw [extractLsb'_ofInt fits]
    refine BitVec.toInt_ofInt_eq_self positive ?_ ?_
    · rw [Int.le_ediv_iff_mul_le one]
      linarith
    · rw [Int.ediv_lt_iff_lt_mul one]
      linarith

end Clocked
