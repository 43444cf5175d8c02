/-
This file puts the bytes of `i2c_master_core` together: the start, the address
byte, the bytes written or read with their acknowledge slots, the wait between
two bytes read, and the stop. The command inputs are looked at only at the end of
an acknowledge slot, and of the byte before it when reading.
-/

import K71GbE.I2c.Bytes

namespace K71GbE.I2c

open Clocked Clocked.TwoWire

namespace Core

/-- The core waits for a command. -/
structure AtRest (core : Core) : Prop where
  state : core.state = .stReady
  busy : core.busy = false
  driven : core.sdaT = false
  sdaInt : core.sdaInt = true
  sclEna : core.sclEna = false
  sclEnaD : core.sclEnaD = false
  bitCnt : core.bitCnt = 7

/-- The core has taken a command and makes the start. -/
structure AtStart (core : Core) (addrRw dataTx : BitVec 8) : Prop where
  state : core.state = .stStart
  busy : core.busy = true
  driven : core.sdaT = false
  sclEna : core.sclEna = true
  sclEnaD : core.sclEnaD = false
  bitCnt : core.bitCnt = 7
  addrRw_eq : core.addrRw = addrRw
  dataTx_eq : core.dataTx = dataTx

/-- The core is about to write a byte. -/
structure AtWrite (core : Core) (byte : BitVec 8) : Prop where
  drives : core.Drives
  state : core.state = .stWr
  byte_eq : core.dataTx = byte

/-- The core is about to acknowledge a byte it read. -/
structure AtAck (core : Core) (byte : BitVec 8) (ack : Bool) : Prop where
  state : core.state = .stMstrAck
  busy : core.busy = true
  driven : core.sdaT = false
  sdaInt : core.sdaInt = ack
  sclEna : core.sclEna = true
  sclEnaD : core.sclEnaD = true
  bitCnt : core.bitCnt = 7
  byte_eq : core.dataRd = byte

/-- The core waits before it reads another byte. -/
structure AtWait (core : Core) (byte : BitVec 8) : Prop where
  state : core.state = .stRdWait
  busy : core.busy = false
  released : core.sdaT = true
  sclEna : core.sclEna = false
  sclEnaD : core.sclEnaD = true
  bitCnt : core.bitCnt = 7
  byte_eq : core.dataRd = byte

/-- The core makes the stop. -/
structure AtStop (core : Core) (byte : BitVec 8) : Prop where
  state : core.state = .stStop
  busy : core.busy = true
  driven : core.sdaT = false
  sdaInt : core.sdaInt = true
  sclEna : core.sclEna = false
  sclEnaD : core.sclEnaD = true
  bitCnt : core.bitCnt = 7
  byte_eq : core.dataRd = byte

end Core

namespace Bus

variable {divider n : Nat} (bus : Bus divider)

/-- Behind eight periods and one more. -/
theorem place_slot (n : Nat) : n + divider * 4 * 8 + divider * 4 = n + divider * 4 * 9 := by
  rw [Nat.add_assoc, ← Nat.mul_succ]

theorem samples_slot (n : Nat) :
    bus.samples n (divider * 4 * 9) =
      bus.samples n (divider * 4 * 8) ++ bus.samples (n + divider * 4 * 8) (divider * 4) := by
  rw [← bus.samples_add, ← Nat.mul_succ]

section Stages

variable (positive : 0 < divider) (risen : (bus.core n).Risen divider)

include positive risen

/-- The start. -/
theorem start_period {addrRw dataTx : BitVec 8} (start : (bus.core n).AtStart addrRw dataTx)
    (pending : Option Event) :
    Reads (.high true pending) (bus.samples n (divider * 4)) [.start] .low ∧
      (bus.core (n + divider * 4)).Drives ∧
      (bus.core (n + divider * 4)).state = .stCommand ∧
      (bus.core (n + divider * 4)).addrRw = addrRw ∧
      (bus.core (n + divider * 4)).dataTx = dataTx ∧
      (∀ j, divider * 2 ≤ j → j ≤ divider * 4 →
        (bus.core (n + j)).sAckError = false ∧ bus.acks n j = []) := by
  obtain ⟨state, busy, driven, sclEna, sclEnaD, bitCnt, rfl, rfl⟩ := start
  have next := bus.core_period positive risen
  have sampled : ((bus.core n).enabled.sample (bus.level n)).sAckError = false := by
    simp only [Core.sample, Core.enabled, state]
  simp only [Core.period, Core.enabled, Core.sample, Core.advance, state] at next
  refine ⟨bus.reads_start positive risen state driven sclEnaD sclEna pending, ?_⟩
  rw [next]
  refine ⟨⟨Or.inl ⟨rfl, rfl⟩, bitCnt, ?_, driven, sclEna, sclEna⟩, rfl, rfl, rfl,
    fun j later within => ⟨?_, ?_⟩⟩
  · show (bus.core n).addrRw.getLsbD (bus.core n).bitCnt = _
    rw [bitCnt]
    rfl
  · rcases Nat.lt_or_ge j (divider * 3) with third | fourth
    · rw [show n + j = n + divider * 2 + (j - divider * 2) by omega,
        bus.core_third positive risen (by omega)]
      exact sampled
    rcases Nat.lt_or_eq_of_le within with inside | rfl
    · rw [show n + j = n + divider * 3 + (j - divider * 3) by omega,
        bus.core_fourth positive risen (by omega)]
      exact sampled
    · rw [next]
  · rw [bus.acks_within positive risen within, if_neg]
    simp [Core.InAck, state]

/-- The stop. -/
theorem stop_period {byte : BitVec 8} (stop : (bus.core n).AtStop byte) :
    Reads .low (bus.samples n (divider * 4)) [.stop] (.high true none) ∧
      (bus.core (n + divider * 4)).AtRest ∧
      (bus.core (n + divider * 4)).dataRd = byte ∧
      bus.Acked n (divider * 4) [] := by
  obtain ⟨state, busy, driven, sdaInt, sclEna, sclEnaD, bitCnt, rfl⟩ := stop
  have next := bus.core_period positive risen
  have acked := bus.acked_period positive risen (by rw [state]; decide)
  rw [if_neg (by rw [Core.InAck, state]; decide)] at acked
  simp only [Core.period, Core.enabled, Core.sample, Core.advance, state] at next
  refine ⟨bus.reads_stop positive risen state driven sclEnaD sclEna, ?_⟩
  rw [next]
  exact ⟨⟨rfl, rfl, driven, sdaInt, rfl, sclEna, bitCnt⟩, rfl, acked⟩

/-- The address byte and its acknowledge slot. -/
theorem address_byte (drives : (bus.core n).Drives)
    (command : (bus.core n).state = .stCommand) :
    ∃ ack,
      Reads .low (bus.samples n (divider * 4 * 9))
        (byteBits false (bus.core n).addrRw ++ [.bit true ack]) .low ∧
      bus.Acked n (divider * 4 * 9) [ack] ∧
      (bus.core (n + divider * 4 * 9)).busy = true ∧
      ((bus.core n).addrRw.getLsbD 0 = false →
        (bus.core (n + divider * 4 * 9)).AtWrite (bus.core n).dataTx) ∧
      ((bus.core n).addrRw.getLsbD 0 = true →
        (bus.core (n + divider * 4 * 9)).Takes ∧
          (bus.core (n + divider * 4 * 9)).sclEnaD = true) := by
  have released := bus.core_released positive risen drives
  have risen' := bus.risen_periods positive risen 8
  have next := bus.core_period positive risen'
  have shift : (bus.core n).shift = (bus.core n).addrRw := if_pos command
  have reads := bus.reads_driven positive risen drives
  have slot := bus.reads_bit positive risen'
    (by rw [released]; constructor <;> simp [Core.released, command])
    (by rw [released]; exact drives.sclEnaD) (by rw [released]; exact drives.sclEna)
  rw [place_slot, released] at next
  rw [shift] at reads
  rw [released] at slot
  have acked := bus.acked_period positive risen' (by rw [released]; simp [Core.released, command])
  rw [if_pos (by rw [released]; simp [Core.InAck, Core.released, command])] at acked
  have flags := (bus.acked_driven positive risen drives).append bus acked
  rw [← Nat.mul_succ, List.nil_append] at flags
  refine ⟨bus.level (n + divider * 4 * 8), ?_, flags, ?_, fun write => ?_, fun read => ?_⟩
  · rw [samples_slot]
    exact reads.append slot
  · rw [next]
    cases kind : (bus.core n).addrRw.getLsbD 0 <;>
      simp only [Core.period, Core.enabled, Core.sample, Core.advance, Core.released, command, kind,
        if_true, if_false, Bool.true_eq_false]
  · simp only [Core.period, Core.enabled, Core.sample, Core.advance, Core.released, command, write,
      if_true] at next
    rw [next]
    exact ⟨⟨Or.inr rfl, rfl, rfl, rfl, drives.sclEna, drives.sclEna⟩, rfl, rfl⟩
  · simp only [Core.period, Core.enabled, Core.sample, Core.advance, Core.released, command, read,
      if_true, if_false, Bool.true_eq_false] at next
    rw [next]
    exact ⟨⟨rfl, rfl, rfl, drives.sclEna⟩, drives.sclEna⟩

/-- A byte written and its acknowledge slot; the command at its end asks for another one or not. -/
theorem written_byte {byte : BitVec 8} (write : (bus.core n).AtWrite byte) :
    ∃ ack,
      Reads .low (bus.samples n (divider * 4 * 9)) (byteBits false byte ++ [.bit true ack]) .low ∧
      bus.Acked n (divider * 4 * 9) [ack] ∧
      ((bus.command (n + divider * 4 * 9 - 1)).ena = true →
        (bus.command (n + divider * 4 * 9 - 1)).rW = false →
        (bus.core (n + divider * 4 * 9)).busy = false ∧
          (bus.core (n + divider * 4 * 9)).AtWrite
            (bus.command (n + divider * 4 * 9 - 1)).dataWr) ∧
      ((bus.command (n + divider * 4 * 9 - 1)).ena = false →
        ∃ dataRd, (bus.core (n + divider * 4 * 9)).AtStop dataRd) := by
  obtain ⟨drives, state, rfl⟩ := write
  have released := bus.core_released positive risen drives
  have risen' := bus.risen_periods positive risen 8
  have next := bus.core_period positive risen'
  have shift : (bus.core n).shift = (bus.core n).dataTx := if_neg (by simp [state])
  have reads := bus.reads_driven positive risen drives
  have slot := bus.reads_bit positive risen'
    (by rw [released]; constructor <;> simp [Core.released, state])
    (by rw [released]; exact drives.sclEnaD) (by rw [released]; exact drives.sclEna)
  rw [place_slot, released] at next
  rw [shift] at reads
  rw [released] at slot
  have acked := bus.acked_period positive risen' (by rw [released]; simp [Core.released, state])
  rw [if_pos (by rw [released]; simp [Core.InAck, Core.released, state])] at acked
  have flags := (bus.acked_driven positive risen drives).append bus acked
  rw [← Nat.mul_succ, List.nil_append] at flags
  refine ⟨bus.level (n + divider * 4 * 8), ?_, flags, fun ena write => ?_, fun ena => ?_⟩
  · rw [samples_slot]
    exact reads.append slot
  · simp only [Core.period, Core.enabled, Core.sample, Core.advance, Core.released, state, ena,
      write, if_true, if_false, reduceCtorEq, Bool.false_eq_true] at next
    rw [next]
    exact ⟨rfl, ⟨Or.inr rfl, rfl, rfl, rfl, drives.sclEna, drives.sclEna⟩, rfl, rfl⟩
  · simp only [Core.period, Core.enabled, Core.sample, Core.advance, Core.released, state, ena,
      if_false, reduceCtorEq, Bool.false_eq_true] at next
    rw [next]
    exact ⟨_, rfl, rfl, rfl, rfl, rfl, drives.sclEna, rfl, rfl⟩

/-- A byte read; the command at its end decides how it is acknowledged. -/
theorem read_byte (takes : (bus.core n).Takes) :
    (bus.core (n + divider * 4 * 8)).AtAck (bus.readByte n)
      (!((bus.command (n + divider * 4 * 8 - 1)).ena &&
        (bus.command (n + divider * 4 * 8 - 1)).rW)) := by
  rw [bus.core_acknowledging positive risen takes]
  exact ⟨rfl, rfl, rfl, rfl, takes.sclEna, rfl, rfl, rfl⟩

/-- The acknowledge slot of a byte read; the command at its end asks for another one or not. -/
theorem ack_slot {byte : BitVec 8} {ack : Bool} (acks : (bus.core n).AtAck byte ack) :
    Reads .low (bus.samples n (divider * 4)) [.bit false ack] .low ∧
      bus.Acked n (divider * 4) [] ∧
      ((bus.command (n + divider * 4 - 1)).ena = true →
        (bus.command (n + divider * 4 - 1)).rW = true →
        (bus.core (n + divider * 4)).AtWait byte) ∧
      ((bus.command (n + divider * 4 - 1)).ena = false → ack = true →
        (bus.core (n + divider * 4)).AtStop byte) := by
  obtain ⟨state, busy, driven, rfl, sclEna, sclEnaD, bitCnt, rfl⟩ := acks
  have next := bus.core_period positive risen
  have slot := bus.reads_bit positive risen (by constructor <;> simp [state]) sclEnaD sclEna
  have level : bus.level n = (bus.core n).sdaInt := by
    simp [level, Core.sda, Core.sdaOut, driven, state]
  rw [driven, level] at slot
  have acked := bus.acked_period positive risen (by rw [state]; decide)
  rw [if_neg (by rw [Core.InAck, state]; decide)] at acked
  refine ⟨slot, acked, fun ena read => ?_, fun ena last => ?_⟩
  · simp only [Core.period, Core.enabled, Core.sample, Core.advance, state, ena, read, if_true,
      if_false, Bool.true_eq_false] at next
    rw [next]
    exact ⟨rfl, rfl, rfl, rfl, sclEna, bitCnt, rfl⟩
  · simp only [Core.period, Core.enabled, Core.sample, Core.advance, state, ena, if_false,
      Bool.false_eq_true] at next
    rw [next]
    exact ⟨rfl, busy, driven, last, rfl, sclEna, bitCnt, rfl⟩

/-- The wait before another byte is read: nothing counts, and the first bit of the byte is on the
data line from the middle of the wait on. -/
theorem wait_period {byte : BitVec 8} (wait : (bus.core n).AtWait byte) :
    (bus.core (n + divider * 4)).Takes ∧
      (bus.core (n + divider * 4)).busy = false ∧
      (bus.core (n + divider * 4)).dataRd = byte ∧
      Reads .low (bus.samples n (divider * 4) ++ bus.samples (n + divider * 4) (divider * 4))
        [.bit true (bus.level (n + divider * 4))] .low ∧
      bus.Acked n (divider * 4) [] := by
  obtain ⟨state, busy, released, sclEna, sclEnaD, bitCnt, rfl⟩ := wait
  have next := bus.core_period positive risen
  simp only [Core.period, Core.enabled, Core.sample, Core.advance, state] at next
  have reads := bus.reads_stretched positive risen released sclEna (by rw [next]; exact released)
    (by rw [next]; exact sclEna) (by constructor <;> simp [state])
    (by rw [next]; constructor <;> simp) sclEnaD (by rw [next])
  have acked := bus.acked_period positive risen (by rw [state]; decide)
  rw [if_neg (by rw [Core.InAck, state]; decide)] at acked
  refine ⟨?_, ?_, ?_, reads, acked⟩ <;> rw [next]
  · exact ⟨rfl, bitCnt, released, rfl⟩
  · exact busy

end Stages

end Bus

end K71GbE.I2c
