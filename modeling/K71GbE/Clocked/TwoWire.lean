/-
This file is about a two-wire bus as a receiver reads it from samples of the clock
line and the data line, at least one of them in every phase of the clock.

A change of the data line during a high phase is a start or a stop. A high phase
without one carries a bit, which counts when the clock line falls. Every sample
says beside the two levels whether the master leaves the data line to the other
side.
-/

import K71GbE.Clocked.Machine

namespace Clocked.TwoWire

/-- The two lines, and whether the data line is left to the other side. -/
structure Sample where
  scl : Bool
  sda : Bool
  released : Bool
deriving DecidableEq, Repr

/-- What a receiver reads. -/
inductive Event where
  | start
  | stop
  | bit (released value : Bool)
deriving DecidableEq, Repr

/-- A receiver: the clock line was low, or it was high with the data line at a level and possibly a
bit to count. -/
inductive Receiver where
  | low
  | high (sda : Bool) (pending : Option Event)
deriving DecidableEq, Repr

namespace Receiver

/-- The receiver after a sample. -/
def next : Receiver → Sample → Receiver
  | low, sample =>
    if sample.scl then high sample.sda (some (.bit sample.released sample.sda)) else low
  | high sda pending, sample =>
    if sample.scl then (if sample.sda = sda then high sda pending else high sample.sda none)
    else low

/-- What a sample tells the receiver. -/
def reads : Receiver → Sample → List Event
  | low, _ => []
  | high sda pending, sample =>
    if sample.scl then (if sample.sda = sda then [] else [if sample.sda then .stop else .start])
    else pending.toList

/-- A receiver that has seen nothing but this sample. -/
def fresh (sample : Sample) : Receiver := if sample.scl then high sample.sda none else low

/-- What the receiver still has to count. -/
def pending : Receiver → List Event
  | low => []
  | high _ pending => pending.toList

end Receiver

/-- The samples take the receiver from one state to another and tell it the events. -/
structure Reads (before : Receiver) (samples : List Sample) (events : List Event)
    (after : Receiver) : Prop where
  told : log Receiver.next Receiver.reads before samples = events
  reached : run Receiver.next before samples = after

/-- The bits of a byte, the most significant one first. -/
def byteBits (released : Bool) (byte : BitVec 8) : List Event :=
  (List.range 8).map fun i => .bit released (byte.getLsbD (7 - i))

section Rules

variable {before middle after : Receiver} {first second : List Sample} {seen later : List Event}

theorem Reads.append (reads : Reads before first seen middle)
    (next : Reads middle second later after) :
    Reads before (first ++ second) (seen ++ later) after := by
  constructor
  · rw [log_append, reads.told, reads.reached, next.told]
  · rw [run_append, reads.reached, next.reached]

/-- A low phase counts the bit that was pending. -/
theorem reads_low (before : Receiver) (nonempty : first ≠ [])
    (low : ∀ sample ∈ first, sample.scl = false) : Reads before first before.pending .low := by
  have stays : ∀ rest : List Sample, (∀ sample ∈ rest, sample.scl = false) →
      Reads .low rest [] .low := by
    intro rest low
    induction rest with
    | nil => exact ⟨rfl, rfl⟩
    | cons sample rest inductionHypothesis =>
      obtain ⟨now, later⟩ := List.forall_mem_cons.mp low
      obtain ⟨told, reached⟩ := inductionHypothesis later
      have moved : Receiver.next .low sample = .low := by
        rw [Receiver.next, now]
        rfl
      constructor
      · rw [log_cons, moved, told]
        rfl
      · rw [run_cons, moved, reached]
  cases first with
  | nil => exact absurd rfl nonempty
  | cons sample rest =>
    obtain ⟨now, later⟩ := List.forall_mem_cons.mp low
    obtain ⟨told, reached⟩ := stays rest later
    have moved : before.next sample = .low := by
      cases before <;> rw [Receiver.next, now] <;> rfl
    constructor
    · rw [log_cons, moved, told, List.append_nil]
      cases before with
      | low => rfl
      | high sda pending =>
        rw [Receiver.reads, now]
        rfl
    · rw [run_cons, moved, reached]

/-- The data line keeps its level. -/
theorem reads_same (count : Nat) (sda released : Bool) (pending : Option Event) :
    Reads (.high sda pending) (List.replicate count ⟨true, sda, released⟩) []
      (.high sda pending) := by
  have moved : Receiver.next (.high sda pending) ⟨true, sda, released⟩ = .high sda pending := by
    rw [Receiver.next, if_pos rfl, if_pos rfl]
  have told : Receiver.reads (.high sda pending) ⟨true, sda, released⟩ = [] := by
    rw [Receiver.reads, if_pos rfl, if_pos rfl]
  induction count with
  | zero => exact ⟨rfl, rfl⟩
  | succ count inductionHypothesis =>
    constructor
    · rw [List.replicate_succ, log_cons, told, moved, inductionHypothesis.told]
      rfl
    · rw [List.replicate_succ, run_cons, moved, inductionHypothesis.reached]

/-- A high phase begins: the level may become a bit. -/
theorem reads_rise {count : Nat} (positive : 0 < count) (sda released : Bool) :
    Reads .low (List.replicate count ⟨true, sda, released⟩) []
      (.high sda (.some (.bit released sda))) := by
  obtain ⟨count, rfl⟩ := Nat.exists_eq_add_one_of_ne_zero positive.ne'
  obtain ⟨told, reached⟩ := reads_same count sda released (.some (.bit released sda))
  exact ⟨told, reached⟩

/-- The data line changes in a high phase. -/
theorem reads_change {count : Nat} (positive : 0 < count) {sda : Bool} (pending : Option Event)
    (released : Bool) :
    Reads (.high (!sda) pending) (List.replicate count ⟨true, sda, released⟩)
      [if sda then .stop else .start] (.high sda none) := by
  obtain ⟨count, rfl⟩ := Nat.exists_eq_add_one_of_ne_zero positive.ne'
  obtain ⟨told, reached⟩ := reads_same count sda released none
  have moved : Receiver.next (.high (!sda) pending) ⟨true, sda, released⟩ = .high sda none := by
    cases sda <;> rfl
  constructor
  · rw [List.replicate_succ, log_cons, moved, told, List.append_nil]
    cases sda <;> rfl
  · rw [List.replicate_succ, run_cons, moved, reached]

end Rules

end Clocked.TwoWire
