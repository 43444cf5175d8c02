/-
This file is about shift registers at the two ends of a serial line.

The levels of a line are numbered from the first one on. A register that is shifted
towards its lowest bit shows a window of consecutive levels, which moves on by one
with every shift that brings in the next level: the sender's register starts with
the first levels, the receiver's with as many zeros as it has bits.
-/

import Mathlib.Data.BitVec

namespace Clocked

variable {w : Nat} {line : Nat → Bool} {first : Nat}

/-- The register after `register <= bit & register(w DOWNTO 1)`. -/
def shiftDown (bit : Bool) (register : BitVec (w + 1)) : BitVec (w + 1) :=
  BitVec.cons bit (register.extractLsb' 1 w)

/-- The register shows the levels of a line from the `first` on. -/
def Window (line : Nat → Bool) (first : Nat) (register : BitVec w) : Prop :=
  ∀ i < w, register.getLsbD i = line (first + i)

/-- A shift that brings in the next level moves the window on. -/
theorem Window.shiftDown {register : BitVec (w + 1)} (window : Window line first register)
    {bit : Bool} (next : bit = line (first + (w + 1))) :
    Window line (first + 1) (shiftDown bit register) := by
  intro i small
  have place : first + 1 + i = first + (i + 1) := by omega
  rw [Clocked.shiftDown, BitVec.getLsbD_cons, place]
  split_ifs with last
  · rw [next, last]
  · have inside : i < w := Nat.lt_of_le_of_ne (Nat.le_of_lt_succ small) last
    rw [BitVec.getLsbD_extractLsb', decide_eq_true inside, Bool.true_and, Nat.add_comm 1 i,
      window (i + 1) (Nat.succ_lt_succ inside)]

/-- A line behind so many zeros. -/
def behind (w : Nat) (line : Nat → Bool) (i : Nat) : Bool := if i < w then false else line (i - w)

theorem behind_add (w : Nat) (line : Nat → Bool) (i : Nat) : behind w line (w + i) = line i := by
  rw [behind, if_neg (Nat.not_lt.mpr (Nat.le_add_right w i)), Nat.add_sub_cancel_left]

theorem window_behind_zero : Window (behind w line) 0 (0 : BitVec w) := by
  intro i small
  rw [behind, Nat.zero_add, if_pos small]
  exact BitVec.getLsbD_zero

/-! ### Asynchronous frames -/

/-- The levels of a word that is sent with a start bit and then stop bits for ever. -/
def asyncLine (word : BitVec w) : Nat → Bool
  | 0 => false
  | i + 1 => if i < w then word.getLsbD i else true

theorem asyncLine_stop (word : BitVec w) {i : Nat} (later : w < i) : asyncLine word i = true := by
  obtain ⟨i, rfl⟩ := Nat.exists_eq_succ_of_ne_zero (Nat.ne_of_gt (Nat.zero_lt_of_lt later))
  exact if_neg (Nat.not_lt.mpr (Nat.le_of_lt_succ later))

/-- A sender's register with the start bit below the word. -/
theorem window_append_zero (word : BitVec w) : Window (asyncLine word) 0 (word ++ 0#1) := by
  intro i small
  rw [BitVec.getLsbD_append, Nat.zero_add]
  cases i with
  | zero => rfl
  | succ i =>
    rw [if_neg (by omega), Nat.add_sub_cancel]
    exact (if_pos (Nat.lt_of_succ_lt_succ small)).symm

/-- A receiver's register holds the word when the start bit has left it. -/
theorem eq_of_window {word register : BitVec w}
    (window : Window (behind w (asyncLine word)) (w + 1) register) : register = word := by
  refine BitVec.eq_of_getLsbD_eq fun i small => ?_
  rw [window i small, Nat.add_assoc, behind_add, Nat.add_comm 1 i]
  exact if_pos small

end Clocked
