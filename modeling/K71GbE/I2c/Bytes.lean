/-
This file follows `i2c_master_core` over whole bytes: eight periods in which it
drives the data line, eight in which it reads it, and the acknowledge slot behind
them. Each result gives the core after the byte, what a receiver reads of it, and
the level of `BUSY` meanwhile.
-/

import K71GbE.I2c.ErrorFlag

namespace K71GbE.I2c

open Clocked Clocked.TwoWire

namespace Core

/-- The register that the core shifts out. -/
def shift (core : Core) : BitVec 8 := if core.state = .stCommand then core.addrRw else core.dataTx

/-- The core is about to drive a byte. -/
structure Drives (core : Core) : Prop where
  moves : core.state = .stCommand ∧ core.busy = true ∨ core.state = .stWr
  bitCnt : core.bitCnt = 7
  sdaInt : core.sdaInt = core.shift.getLsbD 7
  driven : core.sdaT = false
  sclEna : core.sclEna = true
  sclEnaD : core.sclEnaD = true

/-- The core after `k` bits of the byte it drives. -/
def shifted (core : Core) (k : Nat) : Core :=
  if k = 0 then core
  else { core with bitCnt := 7 - k, sdaInt := core.shift.getLsbD (7 - k), busy := true }

/-- The core after the byte. -/
def released (core : Core) : Core :=
  { core with
    sdaT := true
    sdaInt := true
    bitCnt := 7
    busy := true
    state := if core.state = .stCommand then .stSlvAck1 else .stSlvAck2 }

section Drives

variable {core : Core} (drives : core.Drives) {k : Nat}

include drives

theorem Drives.plain (k : Nat) : (core.shifted k).Plain := by
  unfold shifted
  rcases drives.moves with ⟨state, _⟩ | state <;> split_ifs <;> constructor <;> simp [state]

theorem Drives.noAck (k : Nat) : ¬(core.shifted k).InAck := by
  unfold shifted InAck
  rcases drives.moves with ⟨state, _⟩ | state <;> split_ifs <;> simp [state]

theorem Drives.shifted_driven (k : Nat) : (core.shifted k).sdaT = false := by
  unfold shifted
  split_ifs <;> exact drives.driven

/-- The bit on the data line. -/
theorem Drives.sda_shifted (k : Nat) (slave : Bool) :
    (core.shifted k).sda slave = core.shift.getLsbD (7 - k) := by
  have level : (core.shifted k).sdaInt = core.shift.getLsbD (7 - k) := by
    unfold shifted
    split_ifs with zero
    · rw [drives.sdaInt, zero]
    · rfl
  obtain ⟨notStart, notStop⟩ := drives.plain k
  rw [sda, drives.shifted_driven, if_neg Bool.false_ne_true, ← level, sdaOut]
  cases at_ : (core.shifted k).state with
  | stStart => exact absurd at_ notStart
  | stStop => exact absurd at_ notStop
  | _ => rfl

theorem Drives.shifted_sclEna (k : Nat) : (core.shifted k).sclEna = true := by
  unfold shifted
  split_ifs <;> exact drives.sclEna

theorem Drives.shifted_sclEnaD (k : Nat) : (core.shifted k).sclEnaD = true := by
  unfold shifted
  split_ifs <;> exact drives.sclEnaD

/-- One bit more. -/
theorem Drives.period_shifted (more : k < 7) (sdaIn : Bool) (command : Command) :
    (core.shifted k).period sdaIn command = core.shifted (k + 1) := by
  have count : (core.shifted k).bitCnt = 7 - k := by
    unfold shifted
    split_ifs with zero
    · rw [drives.bitCnt, zero]
    · rfl
  have notLast : ¬7 - k = 0 := by omega
  have next : 7 - k - 1 = 7 - (k + 1) := by omega
  have ena := drives.sclEna
  have enaD := drives.sclEnaD
  rcases drives.moves with ⟨state, busy⟩ | state
  · have moves : (core.shifted k).state = .stCommand := by
      unfold shifted
      split_ifs <;> exact state
    unfold period sample advance enabled
    simp only [moves, count, notLast, if_false, next]
    unfold shifted shift
    split_ifs <;> simp_all
  · have moves : (core.shifted k).state = .stWr := by
      unfold shifted
      split_ifs <;> exact state
    unfold period sample advance enabled
    simp only [moves, count, notLast, if_false, next]
    unfold shifted shift
    split_ifs <;> simp_all

/-- The last bit. -/
theorem Drives.period_last (sdaIn : Bool) (command : Command) :
    (core.shifted 7).period sdaIn command = core.released := by
  have ena := drives.sclEna
  have enaD := drives.sclEnaD
  rcases drives.moves with ⟨state, busy⟩ | state <;>
    simp [shifted, released, period, sample, advance, enabled, state, ena, enaD]

end Drives

/-- The core is about to read a byte. -/
structure Takes (core : Core) : Prop where
  moves : core.state = .stRd
  bitCnt : core.bitCnt = 7
  released : core.sdaT = true
  sclEna : core.sclEna = true

/-- The shift register after `k` bits. -/
def received (dataRx : BitVec 8) (bits : Nat → Bool) : Nat → BitVec 8
  | 0 => dataRx
  | k + 1 => setPart (received dataRx bits k) (7 - k) (BitVec.ofBool (bits k))

/-- The core after `k` bits of the byte it reads. -/
def taken (core : Core) (bits : Nat → Bool) (k : Nat) : Core :=
  if k = 0 then core
  else
    { core with
      sclEnaD := true
      bitCnt := 7 - k
      busy := true
      dataRx := received core.dataRx bits k }

/-- The core after the byte, which it acknowledges if the command asks for another one. -/
def acknowledging (core : Core) (byte : BitVec 8) (command : Command) : Core :=
  { core with
    sclEnaD := true
    busy := true
    bitCnt := 7
    sdaT := false
    sdaInt := !(command.ena && command.rW)
    dataRx := byte
    dataRd := byte
    state := .stMstrAck }

theorem getLsbD_received (dataRx : BitVec 8) (bits : Nat → Bool) {i k : Nat} (earlier : i < k)
    (bound : k ≤ 8) : (received dataRx bits k).getLsbD (7 - i) = bits i := by
  induction k with
  | zero => exact absurd earlier (Nat.not_lt_zero i)
  | succ k inductionHypothesis =>
    rw [received, getLsbD_setPart]
    rcases Nat.lt_succ_iff_lt_or_eq.mp earlier with less | rfl
    · rw [if_neg (by omega)]
      exact inductionHypothesis less (Nat.le_of_succ_le bound)
    · rw [if_pos (by omega), decide_eq_true (by omega)]
      simp

theorem dataRx_taken (core : Core) (bits : Nat → Bool) (k : Nat) :
    (core.taken bits k).dataRx = received core.dataRx bits k := by
  unfold taken
  split_ifs with zero
  · rw [zero, received]
  · rfl

section Takes

variable {core : Core} (takes : core.Takes) (bits : Nat → Bool) {k : Nat}

include takes

theorem Takes.state_taken (k : Nat) : (core.taken bits k).state = .stRd := by
  unfold taken
  split_ifs <;> exact takes.moves

theorem Takes.plain (k : Nat) : (core.taken bits k).Plain := by
  constructor <;> rw [takes.state_taken bits k] <;> decide

theorem Takes.released_taken (k : Nat) : (core.taken bits k).sdaT = true := by
  unfold taken
  split_ifs <;> exact takes.released

theorem Takes.sclEna_taken (k : Nat) : (core.taken bits k).sclEna = true := by
  unfold taken
  split_ifs <;> exact takes.sclEna

theorem Takes.bitCnt_taken (k : Nat) : (core.taken bits k).bitCnt = 7 - k := by
  unfold taken
  split_ifs with zero
  · rw [takes.bitCnt, zero]
  · rfl

/-- One bit more. -/
theorem Takes.period_taken (more : k < 7) (command : Command) :
    (core.taken bits k).period (bits k) command = core.taken bits (k + 1) := by
  have notLast : ¬7 - k = 0 := by omega
  have next : 7 - k - 1 = 7 - (k + 1) := by omega
  have state := takes.state_taken bits k
  have count := takes.bitCnt_taken bits k
  have data := core.dataRx_taken bits k
  have received : received core.dataRx bits (k + 1) =
    setPart (received core.dataRx bits k) (7 - k) (BitVec.ofBool (bits k)) := rfl
  have ena := takes.sclEna
  have moves := takes.moves
  unfold period sample advance enabled
  simp only [state, count, data, notLast, if_false, next]
  unfold taken
  rw [received]
  split_ifs <;> simp_all

/-- The last bit. -/
theorem Takes.period_last (command : Command) :
    (core.taken bits 7).period (bits 7) command =
      core.acknowledging (received core.dataRx bits 8) command := by
  have ena := takes.sclEna
  have moves := takes.moves
  simp [taken, acknowledging, received, period, sample, advance, enabled, moves, ena]

end Takes

end Core

namespace Bus

variable {divider n : Nat} (bus : Bus divider)

/-! ### Periods in a row -/

/-- If every one of some periods carries a bit, the receiver reads these bits. -/
theorem reads_bits {event : Nat → Event} {count : Nat}
    (each : ∀ k < count, Reads .low (bus.samples (n + divider * 4 * k) (divider * 4)) [event k]
      .low) :
    Reads .low (bus.samples n (divider * 4 * count)) ((List.range count).map event) .low := by
  induction count with
  | zero => exact ⟨rfl, rfl⟩
  | succ count inductionHypothesis =>
    have before := inductionHypothesis fun k less => each k (Nat.lt_succ_of_lt less)
    rw [Nat.mul_succ, samples_add, List.range_succ, List.map_append, List.map_singleton]
    exact before.append (each count (Nat.lt_succ_self count))

section Byte

variable (positive : 0 < divider) (risen : (bus.core n).Risen divider)

include positive risen

/-- If `BUSY` is high at the beginning of every one of some periods, it is high in all of them. -/
theorem busy_periods (first count : Nat)
    (busy : ∀ k, first ≤ k → k < count → (bus.core (n + divider * 4 * k)).busy = true) {j : Nat}
    (later : divider * 4 * first ≤ j) (earlier : j < divider * 4 * count) :
    (bus.core (n + j)).busy = true := by
  have size : 0 < divider * 4 := by omega
  have less : j / (divider * 4) < count := Nat.div_lt_of_lt_mul earlier
  have more : first ≤ j / (divider * 4) :=
    (Nat.le_div_iff_mul_le size).mpr (by rwa [Nat.mul_comm])
  have split := Nat.div_add_mod j (divider * 4)
  rw [show n + j = n + divider * 4 * (j / (divider * 4)) + j % (divider * 4) by omega,
    bus.busy_within positive (bus.risen_periods positive risen _) (Nat.mod_lt j size)]
  exact busy _ more less

/-! ### A byte that the core drives -/

section Drives

variable (drives : (bus.core n).Drives)

include drives

theorem core_shifted {k : Nat} (inside : k < 8) :
    bus.core (n + divider * 4 * k) = (bus.core n).shifted k := by
  induction k with
  | zero => rfl
  | succ k inductionHypothesis =>
    rw [Nat.mul_succ, ← Nat.add_assoc,
      bus.core_period positive (bus.risen_periods positive risen k),
      inductionHypothesis (Nat.lt_of_succ_lt inside)]
    exact drives.period_shifted (Nat.lt_of_succ_lt_succ inside) _ _

theorem core_released : bus.core (n + divider * 4 * 8) = (bus.core n).released := by
  rw [show divider * 4 * 8 = divider * 4 * 7 + divider * 4 by omega, ← Nat.add_assoc,
    bus.core_period positive (bus.risen_periods positive risen 7),
    bus.core_shifted positive risen drives (by decide)]
  exact drives.period_last _ _

/-- The receiver reads the byte. -/
theorem reads_driven :
    Reads .low (bus.samples n (divider * 4 * 8)) (byteBits false (bus.core n).shift) .low := by
  refine bus.reads_bits fun k inside => ?_
  have here := bus.core_shifted positive risen drives inside
  have reads := bus.reads_bit positive (bus.risen_periods positive risen k)
    (here ▸ drives.plain k) (here ▸ drives.shifted_sclEnaD k) (here ▸ drives.shifted_sclEna k)
  rw [level, here, drives.sda_shifted, drives.shifted_driven] at reads
  exact reads

/-- The error flag keeps its value. -/
theorem acked_driven : bus.Acked n (divider * 4 * 8) [] := by
  refine bus.acked_periods positive risen 8 fun k inside => ?_
  rw [bus.core_shifted positive risen drives inside]
  exact ⟨(drives.plain k).1, drives.noAck k⟩

/-- After the first bit `BUSY` is high. -/
theorem busy_driven {j : Nat} (later : divider * 4 ≤ j) (earlier : j < divider * 4 * 8) :
    (bus.core (n + j)).busy = true := by
  refine bus.busy_periods positive risen 1 8 (fun k more inside => ?_) (by omega) earlier
  rw [bus.core_shifted positive risen drives inside, Core.shifted, if_neg (by omega)]

end Drives

/-! ### A byte that the core reads -/

section Takes

variable (takes : (bus.core n).Takes)

/-- The byte on the data line. -/
def readByte (bus : Bus divider) (n : Nat) : BitVec 8 :=
  Core.received (bus.core n).dataRx (fun k => bus.level (n + divider * 4 * k)) 8

include takes

theorem core_taken {k : Nat} (inside : k < 8) :
    bus.core (n + divider * 4 * k) =
      (bus.core n).taken (fun k => bus.level (n + divider * 4 * k)) k := by
  induction k with
  | zero => rfl
  | succ k inductionHypothesis =>
    rw [Nat.mul_succ, ← Nat.add_assoc,
      bus.core_period positive (bus.risen_periods positive risen k),
      inductionHypothesis (Nat.lt_of_succ_lt inside)]
    exact takes.period_taken (fun k => bus.level (n + divider * 4 * k))
      (Nat.lt_of_succ_lt_succ inside) _

theorem core_acknowledging :
    bus.core (n + divider * 4 * 8) =
      (bus.core n).acknowledging (bus.readByte n) (bus.command (n + divider * 4 * 8 - 1)) := by
  rw [show divider * 4 * 8 = divider * 4 * 7 + divider * 4 by omega, ← Nat.add_assoc,
    bus.core_period positive (bus.risen_periods positive risen 7),
    bus.core_taken positive risen takes (by decide)]
  exact takes.period_last (fun k => bus.level (n + divider * 4 * k)) _

/-- The receiver reads the byte, if it reads the first bit. -/
theorem reads_taken {before : Receiver} {first : List Sample}
    (reads : Reads before first [.bit true (bus.level n)] .low) :
    Reads before (first ++ bus.samples (n + divider * 4) (divider * 4 * 7))
      (byteBits true (bus.readByte n)) .low := by
  have rest : Reads .low (bus.samples (n + divider * 4) (divider * 4 * 7))
      ((List.range 7).map fun k => .bit true (bus.level (n + divider * 4 * (k + 1)))) .low := by
    refine bus.reads_bits fun k inside => ?_
    have place : n + divider * 4 + divider * 4 * k = n + divider * 4 * (k + 1) := by
      ring
    have here := bus.core_taken positive risen takes (k := k + 1) (by omega)
    have ena := takes.sclEna_taken (fun k => bus.level (n + divider * 4 * k)) (k + 1)
    have reads := bus.reads_bit positive (bus.risen_periods positive risen (k + 1))
      (here ▸ takes.plain _ (k + 1)) (by rw [here]; rfl) (here ▸ ena)
    rw [here, takes.released_taken] at reads
    rw [place]
    exact reads
  have bits : byteBits true (bus.readByte n) =
      [.bit true (bus.level n)] ++
        (List.range 7).map fun k => .bit true (bus.level (n + divider * 4 * (k + 1))) := by
    have each (i : Nat) (inside : i < 8) :
        (bus.readByte n).getLsbD (7 - i) = bus.level (n + divider * 4 * i) :=
      Core.getLsbD_received _ (fun k => bus.level (n + divider * 4 * k)) inside le_rfl
    refine (List.map_congr_left fun i member =>
      congrArg (Event.bit true) (each i (List.mem_range.mp member))).trans ?_
    rfl
  rw [bits]
  exact reads.append rest

/-- The error flag keeps its value. -/
theorem acked_taken : bus.Acked n (divider * 4 * 8) [] := by
  refine bus.acked_periods positive risen 8 fun k inside => ?_
  rw [bus.core_taken positive risen takes inside, Core.InAck,
    takes.state_taken (fun k => bus.level (n + divider * 4 * k)) k]
  exact ⟨by decide, by decide⟩

/-- After the first bit `BUSY` is high. -/
theorem busy_taken {j : Nat} (later : divider * 4 ≤ j) (earlier : j < divider * 4 * 8) :
    (bus.core (n + j)).busy = true := by
  refine bus.busy_periods positive risen 1 8 (fun k more inside => ?_) (by omega) earlier
  rw [bus.core_taken positive risen takes inside, Core.taken, if_neg (by omega)]

end Takes

end Byte

end Bus

end K71GbE.I2c
