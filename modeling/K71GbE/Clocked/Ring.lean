/-
This file is about walks of a fixed step round a ring of addresses.

A pointer that starts at `begin` and advances by `step` in a ring of `size`
addresses visits, when the step divides the size, every address of one residue
class once in a lap of `size / step` moves.
-/

import Mathlib.Data.Nat.ModEq

namespace Clocked.Ring

variable {size step begin : Nat}

/-- The address after `k` moves. -/
def walk (size step begin k : Nat) : Nat := (begin + step * k) % size

theorem walk_lt (positive : 0 < size) (k : Nat) : walk size step begin k < size :=
  Nat.mod_lt _ positive

/-- A walk stays in the residue class it starts in. -/
theorem walk_mod (divides : step ∣ size) (k : Nat) :
    walk size step begin k % step = begin % step := by
  rw [walk, Nat.mod_mod_of_dvd _ divides, Nat.add_mul_mod_self_left]

/-- Within one lap no address is met twice. -/
theorem walk_injective (divides : step ∣ size) (positive : 0 < size) {k l : Nat}
    (kLap : k < size / step) (lLap : l < size / step)
    (same : walk size step begin k = walk size step begin l) : k = l := by
  obtain ⟨lap, rfl⟩ := divides
  have stepPositive : 0 < step := Nat.pos_of_mul_pos_right positive
  rw [Nat.mul_div_cancel_left _ stepPositive] at kLap lLap
  have congruent : step * k ≡ step * l [MOD step * lap] := Nat.ModEq.add_left_cancel' begin same
  have reduced : k ≡ l [MOD lap] := Nat.ModEq.mul_left_cancel' stepPositive.ne' congruent
  exact reduced.eq_of_lt_of_lt kLap lLap

/-- Every address of the residue class is met within one lap. -/
theorem exists_walk (divides : step ∣ size) {address : Nat} (inside : address < size)
    (residue : address % step = begin % step) :
    ∃ k < size / step, walk size step begin k = address := by
  obtain ⟨lap, rfl⟩ := divides
  have positive : 0 < step * lap := Nat.zero_lt_of_lt inside
  have stepPositive : 0 < step := Nat.pos_of_mul_pos_right positive
  have lapPositive : 0 < lap := Nat.pos_of_mul_pos_left positive
  have reach : begin ≤ address + step * lap * begin :=
    (Nat.le_mul_of_pos_left begin positive).trans (Nat.le_add_left _ _)
  have aligned : begin ≡ address + step * lap * begin [MOD step] := by
    rw [Nat.ModEq, Nat.mul_assoc, Nat.add_mul_mod_self_left, residue]
  obtain ⟨moves, moved⟩ := (Nat.modEq_iff_dvd' reach).mp aligned
  refine ⟨moves % lap, ?_, ?_⟩
  · rw [Nat.mul_div_cancel_left _ stepPositive]
    exact Nat.mod_lt _ lapPositive
  · have whole : begin + step * moves = address + step * lap * begin := by omega
    calc walk (step * lap) step begin (moves % lap)
        = (begin + step * moves % (step * lap)) % (step * lap) := by
          rw [walk, Nat.mul_mod_mul_left]
      _ = (begin + step * moves) % (step * lap) := by rw [Nat.add_mod_mod]
      _ = address := by
          rw [whole, Nat.add_mul_mod_self_left, Nat.mod_eq_of_lt inside]

end Clocked.Ring
