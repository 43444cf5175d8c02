/-
This file is about the bits that are set in a word, listed from the lowest one,
and about clearing the lowest of them by `v & (v - 1)`.
-/

import Mathlib.Data.BitVec
import Mathlib.Data.Nat.Find

namespace Clocked

variable {w : Nat}

/-- The places of the bits that are set, in ascending order. -/
def setBits (v : BitVec w) : List Nat := (List.range w).filter v.getLsbD

theorem mem_setBits (v : BitVec w) (i : Nat) : i ∈ setBits v ↔ v.getLsbD i = true := by
  rw [setBits, List.mem_filter, List.mem_range]
  exact ⟨And.right, fun set => ⟨BitVec.lt_of_getLsbD set, set⟩⟩

/-- The bits of a small number are low ones. -/
theorem lt_of_mem_setBits {v : BitVec w} {n i : Nat} (small : v.toNat < 2 ^ n)
    (member : i ∈ setBits v) : i < n := by
  rw [mem_setBits, ← BitVec.testBit_toNat] at member
  by_contra high
  have bound : 2 ^ n ≤ 2 ^ i := Nat.pow_le_pow_right (by decide) (Nat.le_of_not_lt high)
  exact absurd (bound.trans (Nat.ge_two_pow_of_testBit member)) (Nat.not_le.mpr small)

theorem setBits_zero : setBits (0 : BitVec w) = [] :=
  List.filter_eq_nil_iff.mpr fun i _ => by simp

/-- A word that is not zero has a lowest bit. -/
theorem exists_lowest {v : BitVec w} (nonzero : v ≠ 0) :
    ∃ b, v.getLsbD b = true ∧ ∀ i < b, v.getLsbD i = false := by
  have set : ∃ b, v.getLsbD b = true := by
    by_contra noBit
    push Not at noBit
    exact nonzero (BitVec.eq_of_getLsbD_eq fun i _ => by simpa using noBit i)
  exact ⟨Nat.find set, Nat.find_spec set, fun i below =>
    Bool.eq_false_of_not_eq_true (Nat.find_min set below)⟩

/-- A word is its lowest bit and the bits above it. -/
theorem toNat_eq_of_lowest {v : BitVec w} {b : Nat} (set : v.getLsbD b = true)
    (lowest : ∀ i < b, v.getLsbD i = false) :
    v.toNat = 2 ^ (b + 1) * (v.toNat >>> (b + 1)) + 2 ^ b := by
  refine Nat.eq_of_testBit_eq fun i => ?_
  have small : 2 ^ b < 2 ^ (b + 1) := Nat.pow_lt_pow_succ (by decide)
  rw [Nat.testBit_two_pow_mul_add _ small, Nat.testBit_two_pow, Nat.testBit_shiftRight]
  split_ifs with below
  · rcases Nat.lt_or_eq_of_le (Nat.le_of_lt_succ below) with less | rfl
    · rw [BitVec.testBit_toNat, lowest i less, decide_eq_false (by omega)]
    · rw [BitVec.testBit_toNat, set, decide_eq_true rfl]
  · rw [show b + 1 + (i - (b + 1)) = i by omega]

/-- Taking one away clears the lowest bit and sets those below it. -/
theorem getLsbD_and_sub_one {v : BitVec w} {b : Nat} (set : v.getLsbD b = true)
    (lowest : ∀ i < b, v.getLsbD i = false) (i : Nat) :
    (v &&& (v - 1)).getLsbD i = (v.getLsbD i && decide (i ≠ b)) := by
  have inside : b < w := BitVec.lt_of_getLsbD set
  have whole := toNat_eq_of_lowest set lowest
  have positive : 0 < 2 ^ b := Nat.two_pow_pos b
  have unit : (1 : BitVec w).toNat = 1 := BitVec.toNat_one (by omega)
  have one : (v - 1).toNat = 2 ^ (b + 1) * (v.toNat >>> (b + 1)) + (2 ^ b - 1) := by
    have least : (1 : BitVec w) ≤ v := by
      rw [BitVec.le_def, unit]
      omega
    rw [BitVec.toNat_sub_of_le least, unit]
    omega
  have small : 2 ^ b - 1 < 2 ^ (b + 1) :=
    (Nat.sub_lt positive Nat.one_pos).trans (Nat.pow_lt_pow_succ (by decide))
  rw [BitVec.getLsbD_and, ← BitVec.testBit_toNat (v - 1), one, Nat.testBit_two_pow_mul_add _ small,
    Nat.testBit_two_pow_sub_one, Nat.testBit_shiftRight]
  split_ifs with below
  · rcases Nat.lt_or_eq_of_le (Nat.le_of_lt_succ below) with less | rfl
    · rw [lowest i less, Bool.false_and, Bool.false_and]
    · simp
  · rw [show b + 1 + (i - (b + 1)) = i by omega, BitVec.testBit_toNat, Bool.and_self,
      decide_eq_true (by omega), Bool.and_true]

/-- `v & (v - 1)` takes the first of the bits away. -/
theorem setBits_and_sub_one {v : BitVec w} (nonzero : v ≠ 0) :
    ∃ b, setBits v = b :: setBits (v &&& (v - 1)) := by
  obtain ⟨b, set, lowest⟩ := exists_lowest nonzero
  have inside : b < w := BitVec.lt_of_getLsbD set
  have split : List.range w = List.range b ++ b :: List.range' (b + 1) (w - (b + 1)) := by
    have after : List.range' b (w - b) = b :: List.range' (b + 1) (w - (b + 1)) := by
      rw [show w - b = w - (b + 1) + 1 by omega, List.range'_succ]
    have before := List.range'_append_1 (s := 0) (m := b) (n := w - b)
    rw [Nat.zero_add, Nat.add_sub_cancel' inside.le, after] at before
    rw [List.range_eq_range', List.range_eq_range', before]
  refine ⟨b, ?_⟩
  have cleared := getLsbD_and_sub_one set lowest
  have front : (List.range b).filter v.getLsbD = [] :=
    List.filter_eq_nil_iff.mpr fun i below => by
      rw [lowest i (List.mem_range.mp below)]
      exact Bool.false_ne_true
  have front' : (List.range b).filter (v &&& (v - 1)).getLsbD = [] :=
    List.filter_eq_nil_iff.mpr fun i below => by
      rw [cleared, lowest i (List.mem_range.mp below)]
      exact Bool.false_ne_true
  have back : (List.range' (b + 1) (w - (b + 1))).filter (v &&& (v - 1)).getLsbD =
      (List.range' (b + 1) (w - (b + 1))).filter v.getLsbD := by
    refine List.filter_congr fun i member => ?_
    have above := (List.mem_range'_1.mp member).1
    rw [cleared, decide_eq_true (by omega), Bool.and_true]
  have gone : (v &&& (v - 1)).getLsbD b = false := by
    rw [cleared, decide_eq_false (by simp), Bool.and_false]
  rw [setBits, setBits, split, List.filter_append, List.filter_append, front, front',
    List.filter_cons_of_pos set, List.filter_cons_of_neg (ne_true_of_eq_false gone), back]
  rfl

end Clocked
