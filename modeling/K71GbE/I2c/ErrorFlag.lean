/-
This file is about `ACK_ERROR` of `i2c_master_core`: the disjunction of the
acknowledge bits of the other side sampled since the start.

A stretch of edges is described by the acknowledge bits sampled in it and by the
flag after every part of it.
-/

import K71GbE.I2c.Period

namespace K71GbE.I2c

open Clocked

namespace Core

/-- The core is in an acknowledge slot of the other side. -/
def InAck (core : Core) : Prop := core.state = .stSlvAck1 ∨ core.state = .stSlvAck2

instance (core : Core) : Decidable core.InAck := inferInstanceAs (Decidable (_ ∨ _))

theorem advance_sAckError (core : Core) (command : Command) :
    (core.advance command).sAckError = core.sAckError := by
  unfold advance
  cases core.state <;> simp only <;> split_ifs <;> rfl

theorem sample_sAckError {core : Core} (noStart : core.state ≠ .stStart) (sdaIn : Bool) :
    (core.sample sdaIn).sAckError =
      (core.sAckError || (if core.InAck then [sdaIn] else []).any id) := by
  cases at_ : core.state with
  | stStart => exact absurd at_ noStart
  | _ => simp [sample, InAck, at_, Bool.or_comm]

end Core

namespace Bus

variable {divider n : Nat} (bus : Bus divider)

/-- The acknowledge bit of the other side that the core samples at edge `n`. -/
def ackAt (n : Nat) : List Bool :=
  if (bus.core n).dataClk && !(bus.core (n + 1)).dataClk && decide (bus.core n).InAck then
    [(bus.core n).sda (bus.slave n)]
  else []

/-- The acknowledge bits among `count` edges. -/
def acks (n count : Nat) : List Bool := (List.range count).flatMap fun j => bus.ackAt (n + j)

theorem acks_add (n first second : Nat) :
    bus.acks n (first + second) = bus.acks n first ++ bus.acks (n + first) second := by
  simp only [acks, List.range_add, List.flatMap_append, List.flatMap_map, Nat.add_assoc]

/-- The acknowledge bits of a stretch; after every part of it the flag is the one before it or an
acknowledge bit that says no. -/
structure Acked (n count : Nat) (sampled : List Bool) : Prop where
  acks_eq : bus.acks n count = sampled
  flags : ∀ j ≤ count,
    (bus.core (n + j)).sAckError = ((bus.core n).sAckError || (bus.acks n j).any id)

theorem Acked.append {first second : Nat} {early late : List Bool}
    (before : bus.Acked n first early) (after : bus.Acked (n + first) second late) :
    bus.Acked n (first + second) (early ++ late) := by
  constructor
  · rw [acks_add, before.acks_eq, after.acks_eq]
  · intro j inside
    rcases Nat.le_total j first with less | more
    · exact before.flags j less
    · obtain ⟨rest, rfl⟩ := Nat.exists_eq_add_of_le more
      rw [← Nat.add_assoc, after.flags rest (by omega), before.flags first le_rfl, acks_add,
        List.any_append, Bool.or_assoc]

section Periods

variable (positive : 0 < divider) (risen : (bus.core n).Risen divider)

include positive risen

theorem dataClk_high {j : Nat} (early : j < divider * 2) :
    (bus.core (n + j)).dataClk = true := by
  rcases Nat.lt_or_ge j divider with first | second
  · rw [bus.core_first risen first]
    rfl
  · rw [show n + j = n + divider + (j - divider) by omega,
      bus.core_second positive risen (by omega)]
    rfl

theorem dataClk_low {j : Nat} (later : divider * 2 ≤ j) (inside : j < divider * 4) :
    (bus.core (n + j)).dataClk = false := by
  rcases Nat.lt_or_ge j (divider * 3) with third | fourth
  · rw [show n + j = n + divider * 2 + (j - divider * 2) by omega,
      bus.core_third positive risen (by omega)]
    rfl
  · rw [show n + j = n + divider * 3 + (j - divider * 3) by omega,
      bus.core_fourth positive risen (by omega)]
    rfl

/-- The acknowledge bit of a period comes in its middle. -/
theorem acks_within {j : Nat} (inside : j ≤ divider * 4) :
    bus.acks n j =
      if divider * 2 ≤ j ∧ (bus.core n).InAck then [bus.level n] else [] := by
  have quiet (count : Nat) (early : count < divider * 2) : bus.acks n count = [] := by
    refine List.flatMap_eq_nil_iff.mpr fun i member => ?_
    have less := List.mem_range.mp member
    have high : (bus.core (n + i + 1)).dataClk = true :=
      bus.dataClk_high positive risen (j := i + 1) (by omega)
    simp [ackAt, high]
  rcases Nat.lt_or_ge j (divider * 2) with early | late
  · rw [quiet j early, if_neg (by omega)]
  · obtain ⟨rest, rfl⟩ := Nat.exists_eq_add_of_le late
    have silent : bus.acks (n + divider * 2) rest = [] := by
      refine List.flatMap_eq_nil_iff.mpr fun i member => ?_
      have less := List.mem_range.mp member
      have low := bus.dataClk_low positive risen (j := divider * 2 + i) (by omega) (by omega)
      rw [← Nat.add_assoc] at low
      simp [ackAt, low]
    have last := bus.core_second positive risen (Nat.sub_one_lt_of_lt positive)
    rw [show n + divider + (divider - 1) = n + (divider * 2 - 1) by omega] at last
    have high := bus.dataClk_high positive risen (j := divider * 2 - 1) (by omega)
    have low := bus.dataClk_low positive risen (j := divider * 2) le_rfl (by omega)
    have level : (bus.core (n + (divider * 2 - 1))).sda (bus.slave (n + (divider * 2 - 1))) =
        bus.level n := by
      rw [level, last, show n + (divider * 2 - 1) = n + divider * 2 - 1 by omega]
      unfold Core.sda Core.sdaOut
      rw [risen.dataClk]
      rfl
    have ack : (bus.core (n + (divider * 2 - 1))).InAck ↔ (bus.core n).InAck := by
      rw [last]
      rfl
    have middle : bus.acks (n + (divider * 2 - 1)) 1 =
        if (bus.core n).InAck then [bus.level n] else [] := by
      rw [acks, List.range_one, List.flatMap_singleton, Nat.add_zero, ackAt, high,
        show n + (divider * 2 - 1) + 1 = n + divider * 2 by omega, low, level]
      simp only [ack, Bool.not_false, Bool.true_and, Bool.and_self, decide_eq_true_eq]
    have split : bus.acks n (divider * 2) = if (bus.core n).InAck then [bus.level n] else [] := by
      rw [show divider * 2 = divider * 2 - 1 + 1 by omega, acks_add, quiet _ (by omega), middle,
        List.nil_append]
    rw [acks_add, split, silent, List.append_nil]
    simp only [late, true_and]

/-- A period behind the start. -/
theorem acked_period (noStart : (bus.core n).state ≠ .stStart) :
    bus.Acked n (divider * 4) (if (bus.core n).InAck then [bus.level n] else []) := by
  have starts : (bus.core n).enabled.state ≠ .stStart := noStart
  have sampled := Core.sample_sAckError starts (bus.level n)
  have inside := bus.acks_within positive risen le_rfl
  have size : divider * 2 ≤ divider * 4 := by omega
  refine ⟨by simpa only [size, true_and] using inside, fun j within => ?_⟩
  rw [bus.acks_within positive risen within]
  rcases Nat.lt_or_ge j (divider * 2) with early | late
  · rw [if_neg (by omega), List.any_nil, Bool.or_false]
    rcases Nat.lt_or_ge j divider with first | second
    · rw [bus.core_first risen first]
      rfl
    · rw [show n + j = n + divider + (j - divider) by omega,
        bus.core_second positive risen (by omega)]
      rfl
  · simp only [late, true_and]
    refine Eq.trans ?_ sampled
    rcases Nat.lt_or_ge j (divider * 3) with third | later
    · rw [show n + j = n + divider * 2 + (j - divider * 2) by omega,
        bus.core_third positive risen (by omega)]
      rfl
    rcases Nat.lt_or_eq_of_le within with fourth | rfl
    · rw [show n + j = n + divider * 3 + (j - divider * 3) by omega,
        bus.core_fourth positive risen (by omega)]
      rfl
    · rw [bus.core_period positive risen]
      exact Core.advance_sAckError _ _

/-- Periods in a row outside the start and the acknowledge slots of the other side. -/
theorem acked_periods (count : Nat)
    (moves : ∀ k < count, (bus.core (n + divider * 4 * k)).state ≠ .stStart ∧
      ¬(bus.core (n + divider * 4 * k)).InAck) :
    bus.Acked n (divider * 4 * count) [] := by
  induction count with
  | zero => exact ⟨rfl, fun j within => by simp [acks, Nat.le_zero.mp within]⟩
  | succ count inductionHypothesis =>
    have before := inductionHypothesis fun k less => moves k (Nat.lt_succ_of_lt less)
    obtain ⟨noStart, noAck⟩ := moves count (Nat.lt_succ_self count)
    have last := bus.acked_period positive (bus.risen_periods positive risen count) noStart
    rw [if_neg noAck] at last
    exact before.append bus last

end Periods

end Bus

end K71GbE.I2c
