/-
This file is about sums in one's complement, where a carry out of the highest bit
is added at the lowest one.

Such a sum is the plain sum modulo `2^w - 1`, with two forms of zero. A list of words
is complete when its sum is all ones, the form of zero that is not the empty sum. A
plain sum is folded by adding its high part to its low one; the complement of that
completes it as long as the fold has no carry itself.
-/

import Mathlib.Data.BitVec
import Mathlib.Data.Nat.ModEq
import Mathlib.Tactic.Ring

namespace Clocked

variable {w : Nat}

/-- Addition with an end-around carry. -/
def endAround (x y : BitVec w) : BitVec w :=
  if x.toNat + y.toNat < 2 ^ w then BitVec.ofNat w (x.toNat + y.toNat)
  else BitVec.ofNat w (x.toNat + y.toNat + 1)

/-- The one's complement sum of some words. -/
def onesSum (words : List (BitVec w)) : BitVec w := words.foldl endAround 0

/-- The sum of some words. -/
def plainSum (words : List (BitVec w)) : Nat := (words.map BitVec.toNat).sum

theorem plainSum_cons (word : BitVec w) (rest : List (BitVec w)) :
    plainSum (word :: rest) = word.toNat + plainSum rest := List.sum_cons

/-- The carry is taken for one. -/
theorem toNat_endAround (x y : BitVec w) :
    (endAround x y).toNat =
      if x.toNat + y.toNat < 2 ^ w then x.toNat + y.toNat else x.toNat + y.toNat + 1 - 2 ^ w := by
  have first := x.isLt
  have second := y.isLt
  unfold endAround
  split_ifs with small
  · rw [BitVec.toNat_ofNat, Nat.mod_eq_of_lt small]
  · rw [BitVec.toNat_ofNat, Nat.mod_eq_sub_mod (by omega), Nat.mod_eq_of_lt (by omega)]

/-- A sum is the plain one modulo `2^w - 1`, and zero for no other reason. -/
theorem foldl_endAround (words : List (BitVec w)) (x : BitVec w) :
    (words.foldl endAround x).toNat ≡ x.toNat + plainSum words [MOD 2 ^ w - 1] ∧
      ((words.foldl endAround x).toNat = 0 ↔ x.toNat + plainSum words = 0) := by
  induction words generalizing x with
  | nil => exact ⟨Nat.ModEq.rfl, Iff.rfl⟩
  | cons word rest inductionHypothesis =>
    obtain ⟨same, zero⟩ := inductionHypothesis (endAround x word)
    have positive : 0 < 2 ^ w := Nat.two_pow_pos w
    rw [List.foldl_cons, plainSum_cons, ← Nat.add_assoc]
    rw [toNat_endAround] at same zero
    split_ifs at same zero with small
    · exact ⟨same, zero⟩
    · refine ⟨same.trans ?_, zero.trans (by omega)⟩
      have carried : x.toNat + word.toNat + plainSum rest =
          x.toNat + word.toNat + 1 - 2 ^ w + plainSum rest + (2 ^ w - 1) := by omega
      rw [carried]
      exact (Nat.add_mod_right _ _).symm

/-- A list of words is complete when its plain sum is a multiple of `2^w - 1`, but not zero. -/
theorem onesSum_eq_allOnes_iff (wide : 0 < w) (words : List (BitVec w)) :
    onesSum words = BitVec.allOnes w ↔ 2 ^ w - 1 ∣ plainSum words ∧ plainSum words ≠ 0 := by
  obtain ⟨same, zero⟩ := foldl_endAround words 0#w
  rw [BitVec.toNat_zero, Nat.zero_add] at same zero
  change (onesSum words).toNat ≡ _ [MOD _] at same
  change (onesSum words).toNat = 0 ↔ _ at zero
  have bound := (onesSum words).isLt
  have more : 2 ^ 1 ≤ 2 ^ w := Nat.pow_le_pow_right (by decide) wide
  rw [← BitVec.toNat_inj, BitVec.toNat_allOnes, ← (Nat.modEq_zero_iff_dvd (n := 2 ^ w - 1)), Ne,
    ← zero]
  constructor
  · intro full
    refine ⟨same.symm.trans ?_, by omega⟩
    rw [full]
    exact Nat.mod_self _
  · rintro ⟨multiple, positive⟩
    have divides := (Nat.modEq_zero_iff_dvd).mp (same.trans multiple)
    exact Nat.le_antisymm (by omega) (Nat.le_of_dvd (Nat.pos_of_ne_zero positive) divides)

/-- The high part of a sum, added to its low part. -/
def fold (w sum : Nat) : Nat := sum / 2 ^ w + sum % 2 ^ w

theorem fold_modEq (w sum : Nat) : fold w sum ≡ sum [MOD 2 ^ w - 1] := by
  have positive : 0 < 2 ^ w := Nat.two_pow_pos w
  have parts := Nat.div_add_mod sum (2 ^ w)
  have split : sum = fold w sum + (2 ^ w - 1) * (sum / 2 ^ w) := by
    rw [fold, Nat.sub_one_mul]
    have large : sum / 2 ^ w ≤ 2 ^ w * (sum / 2 ^ w) := Nat.le_mul_of_pos_left _ positive
    omega
  conv_rhs => rw [split]
  exact (Nat.add_mul_mod_self_left _ _ _).symm

/-- The complement of a folded sum completes it exactly when there is no carry out of the fold. -/
theorem complement_completes_iff (wide : 2 ≤ w) {words : List (BitVec w)} {sum : Nat}
    (positive : 0 < sum) (small : sum < 2 ^ w * 2 ^ w)
    (rest : plainSum words = sum + (~~~BitVec.ofNat w (fold w sum)).toNat) :
    onesSum words = BitVec.allOnes w ↔ fold w sum < 2 ^ w := by
  have four : 2 ^ 2 ≤ 2 ^ w := Nat.pow_le_pow_right (by decide) wide
  have high : sum / 2 ^ w < 2 ^ w := Nat.div_lt_of_lt_mul small
  have low : sum % 2 ^ w < 2 ^ w := Nat.mod_lt _ (Nat.two_pow_pos w)
  have same := fold_modEq w sum
  rw [onesSum_eq_allOnes_iff (Nat.zero_lt_of_lt wide), rest, BitVec.toNat_not, BitVec.toNat_ofNat]
  rcases Nat.lt_or_ge (fold w sum) (2 ^ w) with less | carry
  · rw [Nat.mod_eq_of_lt less]
    refine iff_of_true ⟨?_, by omega⟩ less
    refine (Nat.modEq_zero_iff_dvd).mp ((same.symm.add_right _).trans ?_)
    rw [Nat.add_sub_cancel' (by omega)]
    exact Nat.mod_self _
  · refine iff_of_false (fun complete => ?_) (Nat.not_lt.mpr carry)
    have twice : fold w sum < 2 ^ w + 2 ^ w := by
      unfold fold
      omega
    rw [Nat.mod_eq_sub_mod carry, Nat.mod_eq_of_lt (by omega)] at complete
    have one : fold w sum + (2 ^ w - 1 - (fold w sum - 2 ^ w)) = 1 + 2 * (2 ^ w - 1) := by omega
    have multiple := (same.add_right (2 ^ w - 1 - (fold w sum - 2 ^ w))).trans
      (Nat.modEq_zero_iff_dvd.mpr complete.1)
    rw [one] at multiple
    have divides := Nat.modEq_zero_iff_dvd.mp multiple
    have unit := (Nat.dvd_add_left (Nat.dvd_mul_left _ 2)).mp divides
    exact absurd (Nat.le_of_dvd Nat.one_pos unit) (by omega)

end Clocked
