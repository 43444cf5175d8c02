/-
This file is about wide registers that are used as a row of equal parts, such as
`register((i+1)*k-1 DOWNTO i*k)`.

A part is read and assigned by its index. The two laws are those of an array:
an assignment changes the part it names, and no other.
-/

import Mathlib.Data.BitVec
import Mathlib.Tactic.Ring

namespace Clocked

variable {n k : Nat}

/-- `register((i+1)*k-1 DOWNTO i*k)`. -/
def part (k : Nat) (register : BitVec n) (i : Nat) : BitVec k := register.extractLsb' (i * k) k

/-- The register after `register((i+1)*k-1 DOWNTO i*k) <= value`. -/
def setPart (register : BitVec n) (i : Nat) (value : BitVec k) : BitVec n :=
  (register &&& ~~~((BitVec.allOnes k).setWidth n <<< (i * k))) ||| (value.setWidth n <<< (i * k))

theorem getLsbD_part (register : BitVec n) (i bit : Nat) :
    (part k register i).getLsbD bit = (decide (bit < k) && register.getLsbD (i * k + bit)) := by
  rw [part, BitVec.getLsbD_extractLsb']

/-- The assigned bits are those of the value, the others are kept. -/
theorem getLsbD_setPart (register : BitVec n) (i : Nat) (value : BitVec k) (bit : Nat) :
    (setPart register i value).getLsbD bit =
      if i * k ≤ bit ∧ bit < i * k + k then decide (bit < n) && value.getLsbD (bit - i * k)
      else register.getLsbD bit := by
  rw [setPart]
  simp only [BitVec.getLsbD_or, BitVec.getLsbD_and, BitVec.getLsbD_not, BitVec.getLsbD_shiftLeft,
    BitVec.getLsbD_setWidth, BitVec.getLsbD_allOnes]
  by_cases inside : bit < n
  · by_cases below : bit < i * k
    · rw [if_neg (by omega)]
      simp [inside, below]
    · by_cases within : bit < i * k + k
      · have small : bit - i * k < k := by omega
        have smaller : bit - i * k < n := by omega
        rw [if_pos ⟨by omega, within⟩]
        simp [inside, below, small, smaller]
      · have large : k ≤ bit - i * k := by omega
        have outside : ¬bit - i * k < k := by omega
        rw [if_neg (by omega), BitVec.getLsbD_of_ge value _ large]
        simp [inside, outside]
  · rw [BitVec.getLsbD_of_ge register bit (by omega)]
    simp [inside]

theorem part_setPart (register : BitVec n) {i : Nat} (value : BitVec k) (inside : (i + 1) * k ≤ n) :
    part k (setPart register i value) i = value := by
  refine BitVec.eq_of_getLsbD_eq fun bit small => ?_
  have bound : i * k + bit < n := by
    rw [Nat.add_mul] at inside
    omega
  rw [getLsbD_part, getLsbD_setPart, if_pos ⟨by omega, by omega⟩, decide_eq_true small,
    decide_eq_true bound, Bool.true_and, Bool.true_and, Nat.add_sub_cancel_left]

theorem part_setPart_of_ne (register : BitVec n) {i j : Nat} (value : BitVec k) (other : j ≠ i) :
    part k (setPart register i value) j = part k register j := by
  refine BitVec.eq_of_getLsbD_eq fun bit small => ?_
  have outside : ¬(i * k ≤ j * k + bit ∧ j * k + bit < i * k + k) := by
    rintro ⟨above, below⟩
    rcases Nat.lt_or_gt_of_ne other with less | more
    · have apart : (j + 1) * k ≤ i * k := Nat.mul_le_mul_right k less
      rw [Nat.add_mul] at apart
      omega
    · have apart : (i + 1) * k ≤ j * k := Nat.mul_le_mul_right k more
      rw [Nat.add_mul] at apart
      omega
  rw [getLsbD_part, getLsbD_part, getLsbD_setPart, if_neg outside]

/-! ### A register of two halves -/

/-- Assigning the low half keeps the high half above it. -/
theorem setPart_zero (register : BitVec (k + k)) (value : BitVec k) :
    setPart register 0 value = register.extractLsb' k k ++ value := by
  refine BitVec.eq_of_getLsbD_eq fun bit small => ?_
  rw [getLsbD_setPart, BitVec.getLsbD_append, BitVec.getLsbD_extractLsb']
  by_cases low : bit < k
  · simp [low, small]
  · have high : bit - k < k := by omega
    have whole : k + (bit - k) = bit := by omega
    simp [low, high, whole]

/-- Assigning the high half keeps the low half below it. -/
theorem setPart_one (register : BitVec (k + k)) (value : BitVec k) :
    setPart register 1 value = value ++ register.extractLsb' 0 k := by
  refine BitVec.eq_of_getLsbD_eq fun bit small => ?_
  rw [getLsbD_setPart, BitVec.getLsbD_append, BitVec.getLsbD_extractLsb']
  by_cases low : bit < k
  · have below : ¬k ≤ bit := by omega
    simp [low, below]
  · have high : k ≤ bit := by omega
    simp [low, high, small]

/-! ### A loop over the bits -/

/-- A loop that assigns every bit, from the highest to the lowest; it may read what it has
assigned. -/
def assignBits (value : Nat → BitVec n → Bool) : BitVec n :=
  (List.range n).foldr (fun i register => setPart register i (BitVec.ofBool (value i register))) 0

/-- If every assignment is right whenever the higher ones were, the loop makes the register. -/
theorem assignBits_eq {value : Nat → BitVec n → Bool} {target : BitVec n}
    (assigns : ∀ i < n, ∀ register : BitVec n,
      (∀ bit, i < bit → bit < n → register.getLsbD bit = target.getLsbD bit) →
      value i register = target.getLsbD i) : assignBits value = target := by
  have loop (count : Nat) (bound : count ≤ n) (bit : Nat) (above : n - count ≤ bit)
      (inside : bit < n) : ((List.range' (n - count) count).foldr
        (fun i register => setPart register i (BitVec.ofBool (value i register))) 0).getLsbD bit =
          target.getLsbD bit := by
    induction count generalizing bit with
    | zero => omega
    | succ count inductionHypothesis =>
      have split : List.range' (n - (count + 1)) (count + 1) =
          (n - (count + 1)) :: List.range' (n - count) count := by
        rw [List.range'_succ, show n - (count + 1) + 1 = n - count by omega]
      have higher := inductionHypothesis (by omega)
      rw [split, List.foldr_cons, getLsbD_setPart, Nat.mul_one]
      rcases Nat.eq_or_lt_of_le above with rfl | more
      · rw [if_pos ⟨le_rfl, Nat.lt_succ_self _⟩, decide_eq_true inside, Bool.true_and,
          Nat.sub_self, assigns _ inside _ fun bit after less => higher bit (by omega) less]
        simp
      · rw [if_neg (by omega)]
        exact higher bit (by omega) inside
  refine BitVec.eq_of_getLsbD_eq fun bit inside => ?_
  have whole := loop n le_rfl bit (by omega) inside
  rwa [Nat.sub_self, ← List.range_eq_range'] at whole

end Clocked
