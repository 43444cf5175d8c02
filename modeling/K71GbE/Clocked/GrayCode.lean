/-
This file is about reflected Gray codes of a fixed width, as counters use them
that another clock samples.

From one value to the next, round the wrap, the code changes in one bit. So a
sample that takes some bits before the change and some behind it is one of the two
codes, which no sample of the plain counter is.
-/

import Mathlib.Data.BitVec

namespace Clocked.Gray

variable {w : Nat}

/-- The Gray code of a value. -/
def encode (value : BitVec w) : BitVec w := value ^^^ (value >>> 1)

theorem getLsbD_encode (value : BitVec w) (bit : Nat) :
    (encode value).getLsbD bit = (value.getLsbD bit ^^ value.getLsbD (bit + 1)) := by
  rw [encode, BitVec.getLsbD_xor, BitVec.getLsbD_ushiftRight, Nat.add_comm]

/-- A bit of a counter changes with an increment if all lower ones are set. -/
theorem getLsbD_succ (value : BitVec w) {bit : Nat} (inside : bit < w) :
    (value + 1#w).getLsbD bit =
      (value.getLsbD bit ^^ decide (∀ lower < bit, value.getLsbD lower = true)) := by
  rw [BitVec.getLsbD_add inside]
  cases bit with
  | zero => simp [inside]
  | succ bit =>
    have one : (1#w).getLsbD (bit + 1) = false := by simp
    rw [one, Bool.false_xor, BitVec.carry_succ_one bit value (by omega)]
    simp only [Nat.lt_succ_iff]

/-- With an increment the lowest bits of a counter change, and no others. -/
theorem exists_succ (value : BitVec w) :
    ∃ count, ∀ bit,
      (value + 1#w).getLsbD bit = (value.getLsbD bit ^^ decide (bit < count)) := by
  have clear : ∃ bit, value.getLsbD bit = false := ⟨w, BitVec.getLsbD_of_ge value w le_rfl⟩
  refine ⟨min (Nat.find clear + 1) w, fun bit => ?_⟩
  rcases Nat.lt_or_ge bit w with inside | outside
  · rw [getLsbD_succ value inside]
    refine congrArg _ (decide_eq_decide.mpr ⟨fun ones => ?_, fun less lower below => ?_⟩)
    · refine lt_min (Nat.lt_succ_of_le (Nat.le_of_not_lt fun after => ?_)) inside
      have one := ones _ after
      rw [Nat.find_spec clear] at one
      cases one
    · have before : lower < Nat.find clear := by omega
      exact Bool.eq_true_of_not_eq_false (Nat.find_min clear before)
  · rw [BitVec.getLsbD_of_ge _ bit outside, BitVec.getLsbD_of_ge _ bit outside,
      decide_eq_false (by omega)]
    rfl

/-- With an increment one bit of the code changes. -/
theorem exists_encode_succ (value : BitVec w) :
    ∃ bit, ∀ other, other ≠ bit →
      (encode (value + 1#w)).getLsbD other = (encode value).getLsbD other := by
  obtain ⟨count, changes⟩ := exists_succ value
  refine ⟨count - 1, fun other apart => ?_⟩
  rw [getLsbD_encode, getLsbD_encode, changes, changes]
  have together : decide (other < count) = decide (other + 1 < count) :=
    decide_eq_decide.mpr (by omega)
  rw [together]
  cases value.getLsbD other <;> cases value.getLsbD (other + 1) <;>
    cases decide (other + 1 < count) <;> rfl

/-- A sample that takes the bits of the mask before a change and the others behind it. -/
def sample (mask before after : BitVec w) : BitVec w := (before &&& mask) ||| (after &&& ~~~mask)

@[simp] theorem sample_self (mask value : BitVec w) : sample mask value value = value := by
  refine BitVec.eq_of_getLsbD_eq fun bit inside => ?_
  simp only [sample, BitVec.getLsbD_or, BitVec.getLsbD_and, BitVec.getLsbD_not, inside,
    decide_true, Bool.true_and]
  cases value.getLsbD bit <;> cases mask.getLsbD bit <;> rfl

/-- If one bit changes, a sample is what was there before or what is there after. -/
theorem sample_eq (mask : BitVec w) {before after : BitVec w}
    (one : ∃ bit, ∀ other, other ≠ bit → after.getLsbD other = before.getLsbD other) :
    sample mask before after = before ∨ sample mask before after = after := by
  obtain ⟨bit, same⟩ := one
  have sampled (other : Nat) (inside : other < w) : (sample mask before after).getLsbD other =
      if mask.getLsbD other then before.getLsbD other else after.getLsbD other := by
    simp only [sample, BitVec.getLsbD_or, BitVec.getLsbD_and, BitVec.getLsbD_not, inside,
      decide_true, Bool.true_and]
    cases mask.getLsbD other <;> simp
  cases early : mask.getLsbD bit with
  | true =>
    refine Or.inl (BitVec.eq_of_getLsbD_eq fun other inside => ?_)
    rw [sampled other inside]
    by_cases here : other = bit
    · rw [here, early, if_pos rfl]
    · rw [same other here, ite_self]
  | false =>
    refine Or.inr (BitVec.eq_of_getLsbD_eq fun other inside => ?_)
    rw [sampled other inside]
    by_cases here : other = bit
    · rw [here, early, if_neg Bool.false_ne_true]
    · rw [same other here, ite_self]

/-- A sample of the code of a counter that goes on by at most one is the code of one of its two
values. -/
theorem sample_encode (mask : BitVec w) {before after : BitVec w}
    (step : after = before ∨ after = before + 1#w) :
    sample mask (encode before) (encode after) = encode before ∨
      sample mask (encode before) (encode after) = encode after := by
  rcases step with rfl | rfl
  · exact Or.inl (sample_self mask _)
  · exact sample_eq mask (exists_encode_succ before)

end Clocked.Gray
