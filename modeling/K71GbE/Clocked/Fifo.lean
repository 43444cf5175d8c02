/-
This file models the FIFOs around the designs: the first-word-fall-through FIFO a
design reads from, and the bounded FIFO it writes to.

Of the first only the reading side matters to the machines: which word of the FIFO's word
sequence is on the output, and whether the FIFO is empty. The state therefore
counts the words popped and the words that have become visible; the words
themselves are a sequence outside the state. Words become visible at arbitrary
edges, so every schedule of the empty flag that such a FIFO can show is a
schedule of arrivals. Of the second the contents are kept and the words its
reader has taken. A word written while it is full is dropped.
-/

import Mathlib.Algebra.Order.Group.Nat

namespace Clocked

/-- The reading side of a first-word-fall-through FIFO. A word is popped only after it has
become visible. -/
structure Fwft where
  popped : Nat
  arrived : Nat
  popped_le : popped ≤ arrived

namespace Fwft

/-- No word has been written yet. -/
def new : Fwft := ⟨0, 0, le_rfl⟩

def empty (fifo : Fwft) : Bool := fifo.popped == fifo.arrived

/-- The output: the next word of the sequence, or anything while the FIFO is empty. -/
def dout {Word : Type*} (words : Nat → Word) (junk : Word) (fifo : Fwft) : Word :=
  if fifo.empty then junk else words fifo.popped

/-- The read enable pops a word at this edge. -/
def pops (fifo : Fwft) (rden : Bool) : Bool := rden && !fifo.empty

theorem popped_lt {fifo : Fwft} (visible : fifo.empty = false) : fifo.popped < fifo.arrived :=
  lt_of_le_of_ne fifo.popped_le (by simpa [empty] using visible)

theorem empty_of_le {fifo : Fwft} (all : fifo.arrived ≤ fifo.popped) : fifo.empty = true := by
  rw [empty, beq_iff_eq]
  exact Nat.le_antisymm fifo.popped_le all

theorem visible_of_lt {fifo : Fwft} (more : fifo.popped < fifo.arrived) : fifo.empty = false := by
  rw [empty, beq_eq_false_iff_ne]
  exact Nat.ne_of_lt more

/-- One clock edge: pop when enabled and not empty, and let `arriving` words become
visible. -/
def clock (fifo : Fwft) (rden : Bool) (arriving : Nat) : Fwft where
  popped := if fifo.pops rden then fifo.popped + 1 else fifo.popped
  arrived := fifo.arrived + arriving
  popped_le := by
    have bound := fifo.popped_le
    split
    · rename_i enabled
      have visible : fifo.popped < fifo.arrived := popped_lt (by simp_all [pops])
      omega
    · omega

/-- A FIFO reset drops every word that is visible. -/
def flush (fifo : Fwft) : Fwft := ⟨fifo.arrived, fifo.arrived, le_rfl⟩

theorem dout_visible {Word : Type*} (words : Nat → Word) (junk : Word) {fifo : Fwft}
    (visible : fifo.empty = false) : fifo.dout words junk = words fifo.popped := by
  rw [dout, visible, if_neg Bool.false_ne_true]

/-- Words that have become visible stay visible until they are popped. -/
theorem empty_clock_of_not_popped {fifo : Fwft} {rden : Bool} {arriving : Nat}
    (visible : fifo.empty = false) (kept : fifo.pops rden = false) :
    (fifo.clock rden arriving).empty = false := by
  have bound := popped_lt visible
  simp only [empty, clock, kept, Bool.false_eq_true, if_false, beq_eq_false_iff_ne, ne_eq]
  omega

theorem clock_popped_of_pops {fifo : Fwft} {rden : Bool} {arriving : Nat}
    (pop : fifo.pops rden = true) : (fifo.clock rden arriving).popped = fifo.popped + 1 := by
  simp only [clock, pop, if_true]

theorem clock_popped_of_not_pops {fifo : Fwft} {rden : Bool} {arriving : Nat}
    (kept : fifo.pops rden = false) : (fifo.clock rden arriving).popped = fifo.popped := by
  simp only [clock, kept, Bool.false_eq_true, if_false]

end Fwft

/-- A FIFO of at most `capacity` words, and what was read from it. -/
structure Bounded (Word : Type*) (capacity : Nat) where
  delivered : List Word
  contents : List Word
  length_le : contents.length ≤ capacity

namespace Bounded

variable {Word : Type*} {capacity : Nat}

/-- Nothing has been written yet. -/
def new : Bounded Word capacity := ⟨[], [], Nat.zero_le _⟩

/-- The full flag, which counts every word already written. -/
def full (fifo : Bounded Word capacity) : Bool := fifo.contents.length == capacity

/-- What becomes of a word at the write port. -/
def stores (fifo : Bounded Word capacity) (write : Option Word) : List Word :=
  if fifo.full then [] else write.toList

/-- One clock edge of the writing side: a word is stored unless the FIFO is full, and the reader
takes up to `reads` of the words stored before. -/
def clock (fifo : Bounded Word capacity) (write : Option Word) (reads : Nat) :
    Bounded Word capacity where
  delivered := fifo.delivered ++ fifo.contents.take reads
  contents := fifo.contents.drop reads ++ fifo.stores write
  length_le := by
    have bound := fifo.length_le
    have kept : (fifo.contents.drop reads).length ≤ fifo.contents.length := by
      rw [List.length_drop]
      exact Nat.sub_le _ _
    rw [List.length_append, stores]
    cases full : fifo.full with
    | true =>
      rw [if_pos rfl, List.length_nil]
      omega
    | false =>
      have room : fifo.contents.length ≠ capacity := by simpa [Bounded.full] using full
      have one : write.toList.length ≤ 1 := by cases write <;> simp
      rw [if_neg Bool.false_ne_true]
      omega

/-- Reading moves words, and only a word that is stored is new. -/
theorem clock_words (fifo : Bounded Word capacity) (write : Option Word) (reads : Nat) :
    (fifo.clock write reads).delivered ++ (fifo.clock write reads).contents =
      fifo.delivered ++ fifo.contents ++ fifo.stores write := by
  rw [clock, List.append_assoc, ← List.append_assoc (fifo.contents.take reads),
    List.take_append_drop, List.append_assoc]

end Bounded

end Clocked
