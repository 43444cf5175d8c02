/-
This file is about `i2c_master_core` between a reset and its first transaction.

The reset leaves `BUSY` high until the first rising edge of `data_clk`, and it
leaves the derived clocks and the delayed enable of the clock line as they are.
So the core rests from that edge on, if no command is there, and the clock line
may still be low until `scl_clk` rises.
-/

import K71GbE.I2c.Transaction

namespace K71GbE.I2c

open Clocked Clocked.TwoWire

namespace Core

/-- The core waits for a command; just after a reset the clock line may still follow `scl_clk`. -/
structure Rests (divider : Nat) (core : Core) : Prop where
  waits : { core with sclEnaD := false }.Waits divider
  late : core.sclEnaD = true → divider ≤ core.count ∧ core.count < divider * 2

/-- The core after a reset, before the first rising edge of `data_clk`. -/
structure Fresh (core : Core) : Prop where
  state : core.state = .stReady
  busy : core.busy = true
  sdaInt : core.sdaInt = true
  sclEna : core.sclEna = false
  bitCnt : core.bitCnt = 7

theorem reset_fresh (core : Core) : core.reset.Fresh := ⟨rfl, rfl, rfl, rfl, rfl⟩

section Edges

variable {divider : Nat} {core : Core}

theorem Rests.ready (rests : core.Rests divider) : core.state = .stReady :=
  rests.waits.rest.state

theorem Rests.busy (rests : core.Rests divider) : core.busy = false := rests.waits.rest.busy

theorem Rests.phased (rests : core.Rests divider) : core.Phased divider :=
  ⟨rests.waits.phased.count_lt, rests.waits.phased.sclClk, rests.waits.phased.dataClk⟩

theorem Waits.rests (waits : core.Waits divider) : core.Rests divider := by
  have off := waits.rest.sclEnaD
  have self : { core with sclEnaD := false } = core := by
    rw [← off]
  exact ⟨self.symm ▸ waits, fun late => by rw [off] at late; cases late⟩

theorem Rests.waits_of_off (rests : core.Rests divider) (off : core.sclEnaD = false) :
    core.Waits divider := by
  have self : { core with sclEnaD := false } = core := by
    rw [← off]
  exact self ▸ rests.waits

/-- The delayed enable is off as soon as `scl_clk` rises. -/
theorem Rests.still (rests : core.Rests divider) : (core.still divider).Rests divider := by
  obtain ⟨⟨⟨state, busy, driven, sdaInt, sclEna, _, bitCnt⟩, phased⟩, late⟩ := rests
  have positive : 0 < divider := by
    have bound := phased.count_lt
    omega
  have phased' := still_phased positive phased.count_lt
  refine ⟨⟨⟨state, busy, driven, sdaInt, sclEna, rfl, bitCnt⟩, ?_⟩, fun on => ?_⟩
  · exact ⟨phased'.count_lt, phased'.sclClk, phased'.dataClk⟩
  · have scl : core.sclClk = !decide (core.count < divider * 2) := phased.sclClk
    have off : core.sclEna = false := sclEna
    simp only [Core.still, off] at on
    split at on
    · cases on
    · rename_i flat
      obtain ⟨first, last⟩ := late on
      have noWrap : ¬core.count = divider * 4 - 1 := by omega
      simp only [divide, noWrap, if_false, scl, decide_eq_true last, Bool.not_true, Bool.not_false,
        Bool.true_and, Bool.not_eq_true', decide_eq_false_iff_not, not_not] at flat
      simp only [Core.still, divide, noWrap, if_false]
      omega

theorem Rests.advance_idle (rests : core.Rests divider) {command : Command}
    (idle : command.ena = false) : core.advance command = core := by
  have state := rests.ready
  have busy := rests.busy
  have driven : core.sdaT = false := rests.waits.rest.driven
  have sdaInt : core.sdaInt = true := rests.waits.rest.sdaInt
  cases core
  subst state busy driven sdaInt
  simp [advance, idle]

/-- An edge of `CLK` with the core at rest: it still is, or it starts. -/
theorem Rests.clock (rests : core.Rests divider) (command : Command) (sdaIn : Bool) :
    (core.clock divider command sdaIn).Rests divider ∨
      command.ena = true ∧ (core.clock divider command sdaIn).busy = true := by
  have still := rests.still
  rw [clock_ready rests.ready, rests.phased.rises]
  split
  · cases asked : command.ena with
    | false =>
      rw [still.advance_idle asked]
      exact Or.inl still
    | true =>
      refine Or.inr ⟨rfl, ?_⟩
      simp only [advance, still.ready, asked, if_true]
  · exact Or.inl still

/-- In `StReady` the state machine does not touch the divider. -/
theorem clock_divide (ready : core.state = .stReady) (command : Command) (sdaIn : Bool) :
    (core.clock divider command sdaIn).count = (core.divide divider).count ∧
      (core.clock divider command sdaIn).dataClk = (core.divide divider).dataClk := by
  have ready' : (core.still divider).state = .stReady := ready
  rw [clock_ready ready]
  split
  · simp only [advance, ready']
    split <;> exact ⟨rfl, rfl⟩
  · exact ⟨rfl, rfl⟩

/-- Between two rising edges of `data_clk`. -/
theorem Rests.clock_still (rests : core.Rests divider) (noRise : core.count + 1 ≠ divider)
    (command : Command) (sdaIn : Bool) : core.clock divider command sdaIn = core.still divider := by
  rw [clock_ready rests.ready, rests.phased.rises, decide_eq_false noRise,
    if_neg Bool.false_ne_true]

/-- At a rising edge of `data_clk` a command makes the core busy. -/
theorem Rests.clock_rise (rests : core.Rests divider) (rising : core.count + 1 = divider)
    {command : Command} (asked : command.ena = true) (sdaIn : Bool) :
    (core.clock divider command sdaIn).busy = true := by
  rw [clock_ready rests.ready, rests.phased.rises, decide_eq_true rising, if_pos rfl]
  simp only [advance, rests.still.ready, asked, if_true]

/-- The first rising edge of `data_clk` ends the reset; before it nothing happens. -/
theorem Fresh.clock (positive : 0 < divider) (fresh : core.Fresh)
    (phase : core.Phased divider ∨ core.count = 0) {command : Command} (idle : command.ena = false)
    (sdaIn : Bool) :
    (core.dataClk = false ∧ (core.clock divider command sdaIn).dataClk = true →
        (core.clock divider command sdaIn).Rests divider) ∧
      (¬(core.dataClk = false ∧ (core.clock divider command sdaIn).dataClk = true) →
        (core.clock divider command sdaIn).Fresh ∧
          (core.clock divider command sdaIn).Phased divider) := by
  obtain ⟨state, busy, sdaInt, sclEna, bitCnt⟩ := fresh
  have state' : (core.still divider).state = .stReady := state
  have bound : core.count < divider * 4 := by
    rcases phase with phased | zero
    · exact phased.count_lt
    · omega
  have phased := still_phased positive bound
  rw [(clock_divide state command sdaIn).2, clock_ready state]
  refine ⟨fun rises => ?_, fun stays => ?_⟩
  · have place : (core.still divider).count = divider := by
      rcases phase with phased | zero
      · have rising := phased.rises
        rw [rises.1, rises.2, Bool.not_false, Bool.and_true, eq_comm, decide_eq_true_eq] at rising
        have noWrap : ¬core.count = divider * 4 - 1 := by omega
        simp only [still, divide, noWrap, if_false]
        exact rising
      · have later := rises.2
        have noWrap : ¬0 = divider * 4 - 1 := by omega
        simp only [divide, noWrap, if_false, zero, Bool.and_eq_true, Bool.not_eq_true',
          decide_eq_false_iff_not, decide_eq_true_eq] at later
        simp only [still, divide, zero, noWrap, if_false]
        omega
    rw [rises.1, rises.2, Bool.not_false, Bool.and_true, if_pos rfl]
    simp only [advance, state', idle, Bool.false_eq_true, if_false]
    refine ⟨⟨⟨rfl, rfl, rfl, rfl, sclEna, rfl, bitCnt⟩, ?_⟩, fun _ => ?_⟩
    · exact ⟨phased.count_lt, phased.sclClk, phased.dataClk⟩
    · show divider ≤ (core.still divider).count ∧ (core.still divider).count < divider * 2
      omega
  · have flat : ¬(!core.dataClk && (core.divide divider).dataClk) = true := by
      simpa using stays
    rw [if_neg flat]
    exact ⟨⟨state, busy, sdaInt, sclEna, bitCnt⟩, phased⟩

end Edges

end Core

namespace Bus

variable {divider : Nat} (bus : Bus divider)

/-- Unless `BUSY` rises, the core goes on resting. -/
theorem rests_step {n : Nat} (rests : (bus.core n).Rests divider) :
    bus.rise n = true ∧ (bus.command n).ena = true ∨
      bus.rise n = false ∧ (bus.core (n + 1)).Rests divider := by
  rw [rise, rests.busy, Bool.not_false, Bool.true_and, bus.clocked]
  rcases rests.clock (bus.command n) ((bus.core n).sda (bus.slave n)) with stays | ⟨asked, starts⟩
  · exact Or.inr ⟨stays.busy, stays⟩
  · exact Or.inl ⟨starts, asked⟩

/-- With a command there, `BUSY` rises at the next rising edge of `data_clk`, which comes after
`gap` more edges. -/
theorem exists_rise (gap : Nat) {start : Nat} (rests : (bus.core start).Rests divider)
    (place : (bus.core start).count + gap + 1 = divider ∨
      (bus.core start).count + gap + 1 = divider + divider * 4)
    (asked : ∀ n, start ≤ n → (∀ i, start ≤ i → i < n → bus.rise i = false) →
      (bus.command n).ena = true) :
    ∃ first, start ≤ first ∧ bus.rise first = true ∧
      ∀ n, start ≤ n → n < first → bus.rise n = false := by
  induction gap generalizing start with
  | zero =>
    have bound := rests.phased.count_lt
    have now := asked start le_rfl fun i later earlier => absurd later (Nat.not_le.mpr earlier)
    refine ⟨start, le_rfl, ?_, fun n later earlier => absurd later (Nat.not_le.mpr earlier)⟩
    rw [rise, rests.busy, bus.clocked, rests.clock_rise (by omega) now]
    rfl
  | succ gap inductionHypothesis =>
    rcases bus.rests_step rests with ⟨rises, _⟩ | ⟨quiet, next⟩
    · exact ⟨start, le_rfl, rises, fun n later earlier => absurd later (Nat.not_le.mpr earlier)⟩
    have count : (bus.core (start + 1)).count = ((bus.core start).divide divider).count := by
      rw [bus.clocked]
      exact (Core.clock_divide rests.ready _ _).1
    simp only [Core.divide] at count
    have bound := rests.phased.count_lt
    have extended (n : Nat) (later : start + 1 ≤ n)
        (noRise : ∀ i, start + 1 ≤ i → i < n → bus.rise i = false) :
        (bus.command n).ena = true := by
      refine asked n (by omega) fun i after before => ?_
      rcases Nat.eq_or_lt_of_le after with rfl | more
      · exact quiet
      · exact noRise i more before
    obtain ⟨first, later, rises, noRise⟩ := inductionHypothesis next
      (by split at count <;> omega) extended
    refine ⟨first, by omega, rises, fun n after before => ?_⟩
    rcases Nat.eq_or_lt_of_le after with rfl | more
    · exact quiet
    · exact noRise n more before

/-- The core after an edge with the clock line still low: either the clock line stays low, or
`scl_clk` rises. -/
theorem late_step {n : Nat} (rests : (bus.core n).Rests divider)
    (late : (bus.core n).sclEnaD = true) :
    bus.rise n = false ∧ (bus.core (n + 1)).Rests divider ∧
      (bus.core (n + 1)).count = (bus.core n).count + 1 ∧
      (bus.core (n + 1)).sclEnaD = decide ((bus.core n).count + 1 < divider * 2) := by
  obtain ⟨first, last⟩ := rests.late late
  have noWrap : ¬(bus.core n).count = divider * 4 - 1 := by omega
  have scl : (bus.core n).sclClk = false := by
    rw [rests.phased.sclClk, decide_eq_true last, Bool.not_true]
  have off : (bus.core n).sclEna = false := rests.waits.rest.sclEna
  have moved : bus.core (n + 1) = (bus.core n).still divider := by
    rw [bus.clocked]
    exact rests.clock_still (by omega) _ _
  rw [rise, moved, rests.still.busy, Bool.and_false]
  refine ⟨rfl, rests.still, if_neg noWrap, ?_⟩
  simp only [Core.still, Core.divide, noWrap, if_false, scl, off, late, Bool.not_false,
    Bool.true_and]
  cases decide ((bus.core n).count + 1 < divider * 2) <;> rfl

/-- The clock line is low for the rest of a quarter. -/
theorem late_until {n : Nat} (rests : (bus.core n).Rests divider)
    (late : (bus.core n).sclEnaD = true) {j : Nat} (inside : (bus.core n).count + j < divider * 2) :
    (bus.core (n + j)).Rests divider ∧ (bus.core (n + j)).sclEnaD = true ∧
      (bus.core (n + j)).count = (bus.core n).count + j := by
  induction j with
  | zero => exact ⟨rests, late, rfl⟩
  | succ j inductionHypothesis =>
    obtain ⟨rests, late, count⟩ := inductionHypothesis (by omega)
    obtain ⟨_, next, more, on⟩ := bus.late_step rests late
    rw [count, decide_eq_true (by omega)] at on
    exact ⟨next, on, more.trans (by omega)⟩

/-- In such a quarter the clock line is low and the data line is high. -/
theorem wire_late {n : Nat} (rests : (bus.core n).Rests divider)
    (late : (bus.core n).sclEnaD = true) : bus.wire n = ⟨false, true, false⟩ := by
  have scl : (bus.core n).scl = false := by
    rw [Core.scl, late, rests.phased.sclClk, decide_eq_true (rests.late late).2]
    rfl
  have driven : (bus.core n).sdaT = false := rests.waits.rest.driven
  have level : (bus.core n).sdaInt = true := rests.waits.rest.sdaInt
  rw [wire, scl, driven, Core.sda, driven, if_neg Bool.false_ne_true, Core.sdaOut, rests.ready]
  rw [level]

/-- The quarter is over behind some edge, and the clock line is high again. -/
theorem exists_released {n : Nat} (rests : (bus.core n).Rests divider)
    (late : (bus.core n).sclEnaD = true) :
    ∃ k, (bus.core (n + k)).Rests divider ∧ (bus.core (n + k)).sclEnaD = false ∧
      (bus.core (n + k)).count = divider * 2 ∧ 0 < k ∧
      ∀ j < k, bus.rise (n + j) = false ∧ bus.wire (n + j) = ⟨false, true, false⟩ := by
  obtain ⟨begun, inside⟩ := rests.late late
  obtain ⟨rest, size⟩ := Nat.exists_eq_add_of_lt inside
  obtain ⟨here, on, count⟩ := bus.late_until rests late (j := rest) (by omega)
  obtain ⟨_, next, more, off⟩ := bus.late_step here on
  rw [count, decide_eq_false (by omega)] at off
  refine ⟨rest + 1, next, off, ?_, Nat.succ_pos _, fun j earlier => ?_⟩
  · rw [← Nat.add_assoc, more]
    omega
  · obtain ⟨rests, late, _⟩ := bus.late_until rests late (j := j) (by omega)
    exact ⟨(bus.late_step rests late).1, bus.wire_late rests late⟩

/-- A receiver that begins with a resting core reads nothing until both lines are high. -/
theorem reads_settling {n : Nat} (rests : (bus.core n).Rests divider) :
    ∃ k pending, (bus.core (n + k)).Waits divider ∧
      (∀ i, n ≤ i → i < n + k → bus.rise i = false) ∧
      Reads (.fresh (bus.wire n)) (bus.samples n k) [] (.high true pending) := by
  cases late : (bus.core n).sclEnaD with
  | false =>
    have waits := rests.waits_of_off late
    have high : Receiver.fresh (bus.wire n) = .high true none := by
      rw [bus.wire_waits waits]
      rfl
    refine ⟨0, none, waits, fun i later earlier => absurd later (Nat.not_le.mpr earlier), ?_⟩
    rw [high]
    exact ⟨rfl, rfl⟩
  | true =>
    obtain ⟨k, next, off, count, positive, low⟩ := bus.exists_released rests late
    have bound := next.phased.count_lt
    have waits := next.waits_of_off off
    have lows : Reads (.fresh (bus.wire n)) (bus.samples n k) [] .low := by
      have begins : Receiver.fresh (bus.wire n) = .low := by
        rw [bus.wire_late rests late]
        rfl
      rw [begins, bus.samples_same fun j earlier => (low j earlier).2]
      exact reads_low .low (by simpa using positive.ne') fun sample member => by
        rw [List.eq_of_mem_replicate member]
    have high : Reads .low (bus.samples (n + k) 1) [] (.high true (.some (.bit false true))) := by
      rw [bus.samples_waits waits]
      exact reads_rise Nat.one_pos true false
    have still : bus.core (n + k + 1) = (bus.core (n + k)).still divider := by
      rw [bus.clocked]
      exact next.clock_still (by omega) _ _
    refine ⟨k + 1, .some (.bit false true), ?_, fun i later earlier => ?_, ?_⟩
    · show (bus.core (n + k + 1)).Waits divider
      rw [still]
      exact ⟨waits.rest.still, Core.still_phased (by omega) waits.phased.count_lt⟩
    · rcases Nat.lt_or_ge i (n + k) with before | after
      · have quiet := (low (i - n) (by omega)).1
        rwa [show n + (i - n) = i by omega] at quiet
      · obtain rfl : i = n + k := by omega
        rw [rise, still, next.still.busy, Bool.and_false]
    · rw [samples_add]
      exact lows.append high

end Bus

end K71GbE.I2c
