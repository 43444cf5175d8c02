/-
This file is about FIFOs whose two sides have different widths, and about words
that are passed from one to the next.

Such a FIFO is a queue of units, here of `k` bits. A word that is written is its
units with the most significant one first, so that narrow words fill a wide one
from its most significant end; a word is read when all its units are there.
Whatever is passed on keeps the order of the units.
-/

import K71GbE.Clocked.Lanes

namespace Clocked

variable {k n : Nat}

/-- The queue after a word of `n` units is written. -/
def push (n : Nat) (queue : List (BitVec k)) (word : BitVec (n * k)) : List (BitVec k) :=
  queue ++ msbFirst k n word

/-- A word of `n` units from the queue, if it holds that many, and the rest of it. -/
def pop (n : Nat) (queue : List (BitVec k)) : Option (BitVec (n * k) × List (BitVec k)) :=
  if n ≤ queue.length then some (ofMsbFirst (queue.take n), queue.drop n) else none

/-- One word of `n` units is passed on, if the first queue holds it: the two queues after it. -/
def pass (n : Nat) (source target : List (BitVec k)) : List (BitVec k) × List (BitVec k) :=
  match pop n source with
  | some (word, rest) => (rest, push n target word)
  | none => (source, target)

theorem pop_of_le {queue : List (BitVec k)} (enough : n ≤ queue.length) :
    pop n queue = some (ofMsbFirst (queue.take n), queue.drop n) := if_pos enough

theorem pop_of_lt {queue : List (BitVec k)} (short : queue.length < n) : pop n queue = none :=
  if_neg (Nat.not_le.mpr short)

/-- A word that is read and written again is its units. -/
theorem msbFirst_pop {queue : List (BitVec k)} (enough : n ≤ queue.length) :
    msbFirst k n (ofMsbFirst (queue.take n) : BitVec (n * k)) = queue.take n :=
  msbFirst_ofMsbFirst (by rw [List.length_take, Nat.min_eq_left enough]) le_rfl

theorem pass_of_le {source : List (BitVec k)} (enough : n ≤ source.length)
    (target : List (BitVec k)) :
    pass n source target = (source.drop n, target ++ source.take n) := by
  rw [pass, pop_of_le enough]
  exact congrArg (fun units => (source.drop n, target ++ units)) (msbFirst_pop enough)

theorem pass_of_lt {source : List (BitVec k)} (short : source.length < n)
    (target : List (BitVec k)) : pass n source target = (source, target) := by
  rw [pass, pop_of_lt short]

/-- Passing on keeps the units and their order. -/
theorem pass_append (n : Nat) (source target : List (BitVec k)) :
    (pass n source target).2 ++ (pass n source target).1 = target ++ source := by
  rcases Nat.lt_or_ge source.length n with short | enough
  · rw [pass_of_lt short]
  · rw [pass_of_le enough, List.append_assoc, List.take_append_drop]

/-- A queue that cannot pass on holds less than a word. -/
theorem length_lt_of_pass_eq {source target : List (BitVec k)} (positive : 0 < n)
    (stuck : pass n source target = (source, target)) : source.length < n := by
  refine Nat.lt_of_not_le fun enough => ?_
  rw [pass_of_le enough] at stuck
  have kept : source.drop n = source := (Prod.ext_iff.mp stuck).1
  have lengths := congrArg List.length kept
  rw [List.length_drop] at lengths
  omega

/-- A word that is passed on is missed by the first queue and found in the second. -/
theorem length_pass (source target : List (BitVec k))
    (moved : pass n source target ≠ (source, target)) :
    (pass n source target).1.length + n = source.length ∧
      (pass n source target).2.length = target.length + n := by
  have enough : n ≤ source.length :=
    Nat.le_of_not_lt fun short => moved (pass_of_lt short target)
  rw [pass_of_le enough, List.length_drop, List.length_append, List.length_take,
    Nat.min_eq_left enough, Nat.sub_add_cancel enough]
  exact ⟨rfl, rfl⟩

/-- A queue of whole narrow words stays one. -/
theorem dvd_length_pass_fst {m : Nat} {source : List (BitVec k)} (target : List (BitVec k))
    (whole : m ∣ source.length) (divides : m ∣ n) : m ∣ (pass n source target).1.length := by
  rcases Nat.lt_or_ge source.length n with short | enough
  · rwa [pass_of_lt short]
  · rw [pass_of_le enough, List.length_drop]
    exact Nat.dvd_sub whole divides

theorem dvd_length_pass_snd {m : Nat} (source : List (BitVec k)) {target : List (BitVec k)}
    (whole : m ∣ target.length) (divides : m ∣ n) : m ∣ (pass n source target).2.length := by
  rcases Nat.lt_or_ge source.length n with short | enough
  · rwa [pass_of_lt short]
  · rw [pass_of_le enough, List.length_append, List.length_take, Nat.min_eq_left enough]
    exact Nat.dvd_add whole divides

end Clocked
