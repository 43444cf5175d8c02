/-
This file is about the turns that a walk of a fixed step makes round a ring.

A pointer that advances by `step` in a ring of `size` addresses passes its end
`step / size` times a move on average. However long it has walked, the turns in a
stretch of moves are that many, rounded down or up, and so are the moves between
two turns.
-/

import K71GbE.Clocked.Ring
import Mathlib.Algebra.Order.Floor.Div
import Mathlib.GroupTheory.GroupAction.Ring
import Mathlib.Tactic.Ring

namespace Clocked.Ring

variable {size step begin : Nat}

/-- The turns completed after `k` moves. -/
def turns (size step begin k : Nat) : Nat := (begin + step * k) / size

/-- The move behind `k` moves passes the end of the ring. -/
def Completes (size step begin k : Nat) : Prop :=
  turns size step begin k < turns size step begin (k + 1)

instance (size step begin : Nat) : DecidablePred (Completes size step begin) := fun _ =>
  inferInstanceAs (Decidable (_ < _))

/-- Moves are turns and the address where the walk is. -/
theorem turns_add_walk (size step begin k : Nat) :
    size * turns size step begin k + walk size step begin k = begin + step * k :=
  Nat.div_add_mod _ _

theorem eq_floor_or_ceil {n d value : Nat} (positive : 0 < d) (low : n / d ≤ value)
    (high : value ≤ n ⌈/⌉ d) : value = n / d ∨ value = n ⌈/⌉ d := by
  have close : n ⌈/⌉ d ≤ n / d + 1 := by
    rw [ceilDiv_le_iff_le_mul positive]
    exact (Nat.lt_mul_div_succ n positive).le
  omega

/-- In any stretch of moves the turns are the average, rounded down or up. -/
theorem turns_stretch (positive : 0 < size) (first count : Nat) :
    turns size step begin (first + count) - turns size step begin first = count * step / size ∨
      turns size step begin (first + count) - turns size step begin first =
        (count * step) ⌈/⌉ size := by
  have sum : begin + step * (first + count) = begin + step * first + count * step := by ring
  rw [turns, turns, sum]
  generalize begin + step * first = start
  refine eq_floor_or_ceil positive ?_ ?_
  · exact Nat.le_sub_of_add_le' Nat.div_add_div_le_add_div
  · rw [Nat.sub_le_iff_le_add', ← Nat.add_mul_div_left start _ positive]
    exact Nat.div_le_div_right
      (Nat.add_le_add_left ((ceilDiv_le_iff_le_mul positive).mp le_rfl) start)

theorem turns_le_succ (k : Nat) : turns size step begin k ≤ turns size step begin (k + 1) :=
  Nat.div_le_div_right (Nat.add_le_add_left (Nat.mul_le_mul_left step k.le_succ) begin)

section Short

variable (short : step ≤ size)

include short

/-- A step that is not longer than the ring makes at most one turn. -/
theorem turns_succ (positive : 0 < size) (k : Nat) :
    turns size step begin (k + 1) =
      turns size step begin k + if Completes size step begin k then 1 else 0 := by
  have once : turns size step begin (k + 1) ≤ turns size step begin k + 1 := by
    rw [turns, turns, ← Nat.add_div_right _ positive, Nat.mul_succ, ← Nat.add_assoc]
    exact Nat.div_le_div_right (Nat.add_le_add_left short _)
  split_ifs with completes
  · exact Nat.le_antisymm once completes
  · exact Nat.le_antisymm (Nat.le_of_not_lt completes) (turns_le_succ k)

/-- The turns in a stretch are the moves in it that complete one. -/
theorem turns_add (positive : 0 < size) (first count : Nat) :
    turns size step begin (first + count) = turns size step begin first +
      (List.range count).countP fun i => decide (Completes size step begin (first + i)) := by
  induction count with
  | zero => rfl
  | succ count inductionHypothesis =>
    rw [← Nat.add_assoc, turns_succ short positive, inductionHypothesis, List.range_succ,
      List.countP_append, List.countP_singleton, Nat.add_assoc]
    simp only [decide_eq_true_eq]

/-- The moves of a stretch that complete a turn are the average, rounded down or up. -/
theorem countP_completes (positive : 0 < size) (first count : Nat) :
    let passed := (List.range count).countP fun i => decide (Completes size step begin (first + i))
    passed = count * step / size ∨ passed = (count * step) ⌈/⌉ size := by
  intro passed
  have turned : turns size step begin (first + count) - turns size step begin first = passed := by
    rw [turns_add short positive, Nat.add_sub_cancel_left]
  rw [← turned]
  exact turns_stretch positive first count

end Short

/-- After a turn the walk is within a step from the start of the ring. -/
theorem Completes.walk_lt {k : Nat} (completes : Completes size step begin k) :
    walk size step begin (k + 1) < step := by
  have before := turns_add_walk size step begin k
  have after := turns_add_walk size step begin (k + 1)
  have positive : 0 < size := Nat.pos_of_ne_zero fun zero => by
    simp [Completes, turns, zero] at completes
  have inside : walk size step begin k < size := Ring.walk_lt positive k
  have more := Nat.mul_le_mul_left size completes
  rw [Nat.mul_succ] at more after
  omega

/-- Two turns that follow each other are as many moves apart as a turn takes on average, rounded
down or up. -/
theorem completes_apart (short : step ≤ size) (positive : 0 < step) {i j : Nat} (less : i < j)
    (first : Completes size step begin i) (second : Completes size step begin j)
    (between : ∀ m, i < m → m < j → ¬Completes size step begin m) :
    j - i = size / step ∨ j - i = size ⌈/⌉ step := by
  obtain ⟨gap, rfl⟩ := Nat.exists_eq_add_of_lt less
  have sizePositive := positive.trans_le short
  have same : turns size step begin (i + gap + 1) = turns size step begin (i + 1) := by
    rw [Nat.add_right_comm, turns_add short sizePositive, Nat.add_eq_left, List.countP_eq_zero]
    intro k inside
    rw [List.mem_range] at inside
    rw [decide_eq_true_eq]
    exact between _ (by omega) (by omega)
  have one : turns size step begin (i + gap + 1 + 1) = turns size step begin (i + 1) + 1 := by
    rw [turns_succ short sizePositive, if_pos second, same]
  -- The moves between the two turns are a turn, but for the two remainders.
  have start := turns_add_walk size step begin (i + 1)
  have finish := turns_add_walk size step begin (i + gap + 1 + 1)
  have near := first.walk_lt
  have far := second.walk_lt
  have moves : step * (i + gap + 1 + 1) = step * (i + 1) + step * (gap + 1) := by ring
  rw [one, moves, Nat.mul_succ] at finish
  have apart : i + gap + 1 - i = gap + 1 := by omega
  rw [apart]
  refine eq_floor_or_ceil positive ?_ ?_
  · refine Nat.le_of_lt_succ (Nat.div_lt_of_lt_mul ?_)
    rw [Nat.mul_succ]
    omega
  · by_contra less
    have bound := (ceilDiv_le_iff_le_mul positive).mp (Nat.le_of_lt_succ (Nat.lt_of_not_le less))
    have last : step * (gap + 1) = step * gap + step := Nat.mul_succ step gap
    omega

end Clocked.Ring
