/-
This file follows `i2c_master_core` on a bus through one period of `data_clk`.

A period begins right after a rising edge of `data_clk`. Its four quarters hold
the registers still: the clock line may rise at the second one, the data line is
sampled at the third one, the clock line may fall at the fourth one, and the
state machine moves at the end. What a receiver reads of a period depends on
whether the clock line is enabled in its first quarter and in the others.
-/

import K71GbE.Clocked.TwoWire
import K71GbE.I2c.MasterCore

namespace K71GbE.I2c

open Clocked Clocked.TwoWire

/-- A core on a bus: its state before each edge of `CLK`, the inputs at the edge, and the level the
other side gives the data line before it. The other side keeps that level while the clock line is
high and the data line is left to it. -/
structure Bus (divider : Nat) where
  core : Nat → Core
  command : Nat → Command
  slave : Nat → Bool
  clocked : ∀ n, core (n + 1) = (core n).clock divider (command n) ((core n).sda (slave n))
  steady : ∀ n, (core (n + 1)).scl = true → (core (n + 1)).sdaT = true →
    slave (n + 1) = slave n

namespace Core

/-- The registers of the core with another state of the divider. -/
def phase (core : Core) (count : Nat) (sclClk dataClk : Bool) : Core :=
  { core with count, sclClk, dataClk }

/-- The registers once `scl_clk` has risen. -/
def enabled (core : Core) : Core := { core with sclEnaD := core.sclEna }

/-- The registers after a period, but for the divider. -/
def period (core : Core) (sdaIn : Bool) (command : Command) : Core :=
  (core.enabled.sample sdaIn).advance command

/-- `data_clk` has just risen. -/
structure Risen (divider : Nat) (core : Core) : Prop where
  count : core.count = divider
  sclClk : core.sclClk = false
  dataClk : core.dataClk = true

/-- The data line in the second half of a period, when `data_clk` is low. -/
def late (core : Core) (slave : Bool) : Bool := (core.phase 0 false false).sda slave

/-- The data line does not follow `data_clk`. -/
def Plain (core : Core) : Prop := core.state ≠ .stStart ∧ core.state ≠ .stStop

section Phase

variable {divider count : Nat} {sclClk dataClk : Bool} (core : Core)

theorem Risen.phase_eq {core : Core} (risen : core.Risen divider) :
    core.phase divider false true = core := by
  obtain ⟨count, low, high⟩ := risen
  rw [phase, ← count, ← low, ← high]

theorem sample_phase (sdaIn : Bool) :
    (core.phase count sclClk dataClk).sample sdaIn =
      (core.sample sdaIn).phase count sclClk dataClk := by
  cases at_ : core.state <;> simp only [sample, phase, at_]

theorem advance_phase (command : Command) :
    (core.phase count sclClk dataClk).advance command =
      (core.advance command).phase count sclClk dataClk := by
  cases at_ : core.state with
  | stReady => cases ena : command.ena <;> simp [advance, phase, at_, ena]
  | stCommand | stWr | stRd =>
    by_cases last : core.bitCnt = 0 <;> simp [advance, phase, at_, last]
  | stSlvAck1 =>
    by_cases write : core.addrRw.getLsbD 0 = false <;>
      simp only [advance, phase, at_, write, if_true, if_false, Bool.true_eq_false]
  | stSlvAck2 | stMstrAck =>
    cases ena : command.ena <;> cases read : command.rW <;> simp [advance, phase, at_, ena, read]
  | _ => simp only [advance, phase, at_]

/-- A period ends where it began. -/
theorem Risen.period_eq {core : Core} (risen : core.Risen divider) (sdaIn : Bool)
    (command : Command) :
    core.period sdaIn command = (core.period sdaIn command).phase divider false true := by
  have stays : core.enabled.Risen divider := ⟨risen.count, risen.sclClk, risen.dataClk⟩
  have enabled : core.enabled.phase divider false true = core.enabled := stays.phase_eq
  rw [period, ← advance_phase, ← sample_phase, enabled]

@[simp] theorem sample_state (sdaIn : Bool) : (core.sample sdaIn).state = core.state := by
  unfold sample
  cases at_ : core.state <;> simp only [at_]

@[simp] theorem sample_sdaT (sdaIn : Bool) : (core.sample sdaIn).sdaT = core.sdaT := by
  unfold sample
  cases core.state <;> rfl

@[simp] theorem sample_sdaInt (sdaIn : Bool) : (core.sample sdaIn).sdaInt = core.sdaInt := by
  unfold sample
  cases core.state <;> rfl

@[simp] theorem sample_sclEnaD (sdaIn : Bool) : (core.sample sdaIn).sclEnaD = core.sclEnaD := by
  unfold sample
  cases core.state <;> rfl

@[simp] theorem sample_busy (sdaIn : Bool) : (core.sample sdaIn).busy = core.busy := by
  unfold sample
  cases core.state <;> rfl

/-- The falling edge of `data_clk` changes nothing on the bus by itself. -/
theorem late_sample (sdaIn slave : Bool) :
    (core.enabled.sample sdaIn).late slave = core.late slave := by
  cases at_ : core.state <;> simp only [late, sda, sdaOut, phase, sample, enabled, at_]

/-- Unless the state machine makes a start or a stop, the data line keeps its level. -/
theorem Plain.late {core : Core} (plain : core.Plain) (slave : Bool) :
    core.late slave = core.sda slave := by
  obtain ⟨notStart, notStop⟩ := plain
  unfold Core.late sda sdaOut phase
  cases at_ : core.state with
  | stStart => exact absurd at_ notStart
  | stStop => exact absurd at_ notStop
  | _ => rfl

/-- Within a quarter an edge of `CLK` only counts. -/
theorem clock_within (inside : count + 1 < divider * 4)
    (scl : sclClk = !decide (count + 1 < divider * 2))
    (data : dataClk = (!decide (count + 1 < divider) && decide (count + 1 < divider * 3)))
    (command : Command) (sdaIn : Bool) :
    (core.phase count sclClk dataClk).clock divider command sdaIn =
      core.phase (count + 1) sclClk dataClk := by
  have noWrap : ¬count = divider * 4 - 1 := by omega
  simp only [clock, divide, phase, noWrap, if_false, ← scl, ← data, Bool.not_and_self,
    Bool.and_not_self, Bool.false_eq_true]

/-- `scl_clk` rises. -/
theorem clock_scl_rise (positive : 0 < divider) (command : Command) (sdaIn : Bool) :
    (core.phase (divider * 2 - 1) false true).clock divider command sdaIn =
      core.enabled.phase (divider * 2) true true := by
  have next : divider * 2 - 1 + 1 = divider * 2 := by omega
  have noWrap : ¬divider * 2 - 1 = divider * 4 - 1 := by omega
  have later : ¬divider * 2 < divider := by omega
  have earlier : divider * 2 < divider * 3 := by omega
  simp [clock, divide, phase, enabled, noWrap, next, later, earlier]

/-- `data_clk` falls. -/
theorem clock_data_fall (positive : 0 < divider) (command : Command) (sdaIn : Bool) :
    (core.phase (divider * 3 - 1) true true).clock divider command sdaIn =
      (core.sample sdaIn).phase (divider * 3) true false := by
  have next : divider * 3 - 1 + 1 = divider * 3 := by omega
  have noWrap : ¬divider * 3 - 1 = divider * 4 - 1 := by omega
  have later : ¬divider * 3 < divider * 2 := by omega
  rw [← sample_phase]
  simp [clock, divide, phase, noWrap, next, later]

/-- `scl_clk` falls. -/
theorem clock_scl_fall (positive : 0 < divider) (command : Command) (sdaIn : Bool) :
    (core.phase (divider * 4 - 1) true false).clock divider command sdaIn =
      core.phase 0 false false := by
  simp [clock, divide, phase, positive]

/-- `data_clk` rises. -/
theorem clock_data_rise (positive : 0 < divider) (command : Command) (sdaIn : Bool) :
    (core.phase (divider - 1) false false).clock divider command sdaIn =
      (core.advance command).phase divider false true := by
  have next : divider - 1 + 1 = divider := by omega
  have noWrap : ¬divider - 1 = divider * 4 - 1 := by omega
  have earlier : divider < divider * 3 := by omega
  have low : divider < divider * 2 := by omega
  have stays : ((core.advance command).phase divider false true).dataClk = true := rfl
  rw [← advance_phase] at stays ⊢
  simp only [clock, divide, phase, noWrap, if_false, next, low, earlier, lt_irrefl, decide_true,
    decide_false, Bool.not_true, Bool.not_false, Bool.and_false, Bool.and_true,
    Bool.false_eq_true, if_true, Bool.false_and]

end Phase

end Core

/-! ### The quarters of a period -/

namespace Bus

variable {divider n : Nat} (bus : Bus divider)

/-- Until the end of a quarter the core only counts. -/
theorem core_within {core : Core} {first : Nat} {sclClk dataClk : Bool}
    (start : bus.core n = core.phase first sclClk dataClk) (inside : first + divider ≤ divider * 4)
    (scl : ∀ j < divider, sclClk = !decide (first + j < divider * 2))
    (data : ∀ j < divider,
      dataClk = (!decide (first + j < divider) && decide (first + j < divider * 3)))
    {j : Nat} (within : j < divider) :
    bus.core (n + j) = core.phase (first + j) sclClk dataClk := by
  induction j with
  | zero => exact start
  | succ j inductionHypothesis =>
    rw [← Nat.add_assoc, bus.clocked, inductionHypothesis (Nat.lt_of_succ_lt within)]
    have inside : first + j + 1 < divider * 4 := by omega
    exact core.clock_within inside (scl (j + 1) within) (data (j + 1) within) _ _

/-- The level on the data line when it is sampled in the period that begins at `n`. -/
def level (n : Nat) : Bool := (bus.core n).sda (bus.slave (n + divider * 2 - 1))

section Quarters

variable (positive : 0 < divider) (risen : (bus.core n).Risen divider)

include risen

theorem core_first {j : Nat} (within : j < divider) :
    bus.core (n + j) = (bus.core n).phase (divider + j) false true := by
  refine bus.core_within risen.phase_eq.symm (by omega) (fun j inside => ?_) (fun j inside => ?_)
    within
  · simp [show divider + j < divider * 2 by omega]
  · simp [show divider + j < divider * 3 by omega]

include positive

theorem core_second {j : Nat} (within : j < divider) :
    bus.core (n + divider + j) = (bus.core n).enabled.phase (divider * 2 + j) true true := by
  refine bus.core_within ?_ (by omega) (fun j inside => ?_) (fun j inside => ?_) within
  · have last := bus.core_first risen (Nat.sub_one_lt_of_lt positive)
    have crossing := (bus.core n).clock_scl_rise positive (bus.command (n + (divider - 1)))
      ((bus.core (n + (divider - 1))).sda (bus.slave (n + (divider - 1))))
    rw [show n + divider = n + (divider - 1) + 1 by omega, bus.clocked, ← crossing, last,
      show divider + (divider - 1) = divider * 2 - 1 by omega]
  · simp [show ¬divider * 2 + j < divider * 2 by omega]
  · simp [show ¬divider * 2 + j < divider by omega, show divider * 2 + j < divider * 3 by omega]

theorem core_third {j : Nat} (within : j < divider) :
    bus.core (n + divider * 2 + j) =
      ((bus.core n).enabled.sample (bus.level n)).phase (divider * 3 + j) true false := by
  refine bus.core_within ?_ (by omega) (fun j inside => ?_) (fun j inside => ?_) within
  · have last := bus.core_second positive risen (Nat.sub_one_lt_of_lt positive)
    have level : (bus.core (n + divider + (divider - 1))).sda
        (bus.slave (n + divider + (divider - 1))) = bus.level n := by
      rw [level, last, show n + divider + (divider - 1) = n + divider * 2 - 1 by omega]
      unfold Core.sda Core.sdaOut
      rw [risen.dataClk]
      rfl
    have crossing := (bus.core n).enabled.clock_data_fall positive
      (bus.command (n + divider + (divider - 1))) (bus.level n)
    rw [show n + divider * 2 = n + divider + (divider - 1) + 1 by omega, bus.clocked, level,
      ← crossing, last, show divider * 2 + (divider - 1) = divider * 3 - 1 by omega]
  · simp [show ¬divider * 3 + j < divider * 2 by omega]
  · simp [show ¬divider * 3 + j < divider * 3 by omega]

theorem core_fourth {j : Nat} (within : j < divider) :
    bus.core (n + divider * 3 + j) =
      ((bus.core n).enabled.sample (bus.level n)).phase j false false := by
  have last := bus.core_third positive risen (Nat.sub_one_lt_of_lt positive)
  have crossing := ((bus.core n).enabled.sample (bus.level n)).clock_scl_fall positive
    (bus.command (n + divider * 2 + (divider - 1)))
    ((bus.core (n + divider * 2 + (divider - 1))).sda
      (bus.slave (n + divider * 2 + (divider - 1))))
  have start : bus.core (n + divider * 3) =
      ((bus.core n).enabled.sample (bus.level n)).phase 0 false false := by
    rw [show n + divider * 3 = n + divider * 2 + (divider - 1) + 1 by omega, bus.clocked,
      ← crossing, last, show divider * 3 + (divider - 1) = divider * 4 - 1 by omega]
  have stays := bus.core_within start (by omega)
    (fun j inside => by simp [show j < divider * 2 by omega])
    (fun j inside => by simp [inside]) within
  rwa [Nat.zero_add] at stays

theorem core_moved :
    bus.core (n + divider * 4) =
      ((bus.core n).period (bus.level n) (bus.command (n + divider * 4 - 1))).phase divider
        false true := by
  have last := bus.core_fourth positive risen (Nat.sub_one_lt_of_lt positive)
  have crossing := ((bus.core n).enabled.sample (bus.level n)).clock_data_rise positive
    (bus.command (n + divider * 3 + (divider - 1)))
    ((bus.core (n + divider * 3 + (divider - 1))).sda
      (bus.slave (n + divider * 3 + (divider - 1))))
  rw [show n + divider * 4 = n + divider * 3 + (divider - 1) + 1 by omega, bus.clocked,
    Nat.add_sub_cancel, Core.period, ← crossing, last]

theorem risen_period : (bus.core (n + divider * 4)).Risen divider := by
  rw [bus.core_moved positive risen]
  exact ⟨rfl, rfl, rfl⟩

/-- After a period. -/
theorem core_period :
    bus.core (n + divider * 4) =
      (bus.core n).period (bus.level n) (bus.command (n + divider * 4 - 1)) := by
  rw [bus.core_moved positive risen, ← risen.period_eq]

theorem risen_periods (k : Nat) : (bus.core (n + divider * 4 * k)).Risen divider := by
  induction k with
  | zero => exact risen
  | succ k inductionHypothesis =>
    rw [Nat.mul_succ, ← Nat.add_assoc]
    exact bus.risen_period positive inductionHypothesis

/-- `BUSY` keeps its level within a period. -/
theorem busy_within {j : Nat} (within : j < divider * 4) :
    (bus.core (n + j)).busy = (bus.core n).busy := by
  have sampled : ((bus.core n).enabled.sample (bus.level n)).busy = (bus.core n).busy :=
    Core.sample_busy _ _
  rcases Nat.lt_or_ge j divider with early | later
  · rw [bus.core_first risen early]
    rfl
  rcases Nat.lt_or_ge j (divider * 2) with early | later
  · rw [show n + j = n + divider + (j - divider) by omega,
      bus.core_second positive risen (by omega)]
    rfl
  rcases Nat.lt_or_ge j (divider * 3) with early | later
  · rw [show n + j = n + divider * 2 + (j - divider * 2) by omega,
      bus.core_third positive risen (by omega)]
    exact sampled
  · rw [show n + j = n + divider * 3 + (j - divider * 3) by omega,
      bus.core_fourth positive risen (by omega)]
    exact sampled

end Quarters

/-! ### What a receiver reads of a period -/

/-- The sample of the two lines before edge `n`. -/
def wire (n : Nat) : Sample :=
  ⟨(bus.core n).scl, (bus.core n).sda (bus.slave n), (bus.core n).sdaT⟩

def samples (n count : Nat) : List Sample := (List.range count).map fun j => bus.wire (n + j)

theorem samples_add (n first second : Nat) :
    bus.samples n (first + second) = bus.samples n first ++ bus.samples (n + first) second := by
  simp only [samples, List.range_add, List.map_append, List.map_map, Function.comp_def,
    Nat.add_assoc]

theorem samples_same {count : Nat} {sample : Sample}
    (same : ∀ j < count, bus.wire (n + j) = sample) :
    bus.samples n count = List.replicate count sample := by
  refine List.eq_replicate_iff.mpr ⟨by rw [samples, List.length_map, List.length_range], ?_⟩
  intro other member
  obtain ⟨j, inside, rfl⟩ := List.mem_map.mp member
  exact same j (List.mem_range.mp inside)

theorem samples_ne_nil (n : Nat) {count : Nat} (positive : 0 < count) :
    bus.samples n count ≠ [] := by
  obtain ⟨count, rfl⟩ := Nat.exists_eq_add_one_of_ne_zero positive.ne'
  rw [samples, List.range_succ_eq_map]
  simp

/-- While the clock line is high and the data line is left to it, the other side keeps its level. -/
theorem slave_steady {count : Nat}
    (high : ∀ j < count, (bus.core (n + 1 + j)).scl = true ∧ (bus.core (n + 1 + j)).sdaT = true)
    {j : Nat} (inside : j ≤ count) : bus.slave (n + j) = bus.slave n := by
  induction j with
  | zero => rfl
  | succ j inductionHypothesis =>
    have now := high j inside
    rw [show n + 1 + j = n + j + 1 by omega] at now
    rw [← Nat.add_assoc, bus.steady (n + j) now.1 now.2]
    exact inductionHypothesis (Nat.le_of_succ_le inside)

section Wires

variable (positive : 0 < divider) (risen : (bus.core n).Risen divider) {j : Nat}
  (within : j < divider)

include risen within

theorem wire_first : bus.wire (n + j) =
    ⟨!(bus.core n).sclEnaD, (bus.core n).sda (bus.slave (n + j)), (bus.core n).sdaT⟩ := by
  have data : ((bus.core n).phase (divider + j) false true).sda (bus.slave (n + j)) =
      (bus.core n).sda (bus.slave (n + j)) := by
    unfold Core.sda Core.sdaOut
    rw [risen.dataClk]
    rfl
  rw [wire, bus.core_first risen within, data]
  refine congrArg (Sample.mk · _ _) ?_
  show (if (bus.core n).sclEnaD then false else true) = _
  cases (bus.core n).sclEnaD <;> rfl

include positive

theorem wire_second : bus.wire (n + divider + j) =
    ⟨true, (bus.core n).sda (bus.slave (n + divider + j)), (bus.core n).sdaT⟩ := by
  have data : ((bus.core n).enabled.phase (divider * 2 + j) true true).sda
      (bus.slave (n + divider + j)) = (bus.core n).sda (bus.slave (n + divider + j)) := by
    unfold Core.sda Core.sdaOut
    rw [risen.dataClk]
    rfl
  rw [wire, bus.core_second positive risen within, data]
  refine congrArg (Sample.mk · _ _) ?_
  unfold Core.scl
  exact ite_self _

theorem wire_third : bus.wire (n + divider * 2 + j) =
    ⟨true, (bus.core n).late (bus.slave (n + divider * 2 + j)), (bus.core n).sdaT⟩ := by
  rw [wire, bus.core_third positive risen within, ← Core.late_sample _ (bus.level n)]
  refine congr (congrArg (Sample.mk · _) ?_) (Core.sample_sdaT _ _)
  unfold Core.scl
  exact ite_self _

theorem wire_fourth : bus.wire (n + divider * 3 + j) =
    ⟨!(bus.core n).sclEna, (bus.core n).late (bus.slave (n + divider * 3 + j)),
      (bus.core n).sdaT⟩ := by
  rw [wire, bus.core_fourth positive risen within, ← Core.late_sample _ (bus.level n)]
  refine congr (congrArg (Sample.mk · _) ?_) (Core.sample_sdaT _ _)
  unfold Core.scl
  show (if ((bus.core n).enabled.sample (bus.level n)).sclEnaD then false else true) = _
  rw [Core.sample_sclEnaD]
  show (if (bus.core n).sclEna then false else true) = _
  cases (bus.core n).sclEna <;> rfl

end Wires

section Halves

variable (positive : 0 < divider) (risen : (bus.core n).Risen divider) {sda : Bool}

theorem samples_period (n : Nat) :
    bus.samples n (divider * 4) =
      bus.samples n divider ++ (bus.samples (n + divider) divider ++
        (bus.samples (n + divider * 2) divider ++ bus.samples (n + divider * 3) divider)) := by
  rw [show divider * 4 = divider + (divider + (divider + divider)) by omega, samples_add,
    samples_add, samples_add]
  simp only [Nat.add_assoc, show divider + divider = divider * 2 by omega,
    show divider * 2 + divider = divider * 3 by omega]

include risen

/-- A first quarter with the clock line high. -/
theorem reads_first_high (enabled : (bus.core n).sclEnaD = false)
    (same : ∀ j < divider, (bus.core n).sda (bus.slave (n + j)) = sda) (pending : Option Event) :
    Reads (.high sda pending) (bus.samples n divider) [] (.high sda pending) := by
  rw [bus.samples_same fun j inside => by
    rw [bus.wire_first risen inside, enabled, same j inside, Bool.not_false]]
  exact reads_same _ _ _ _

include positive

/-- A first quarter with the clock line low. -/
theorem reads_first_low (enabled : (bus.core n).sclEnaD = true) (before : Receiver) :
    Reads before (bus.samples n divider) before.pending .low := by
  refine reads_low before (bus.samples_ne_nil n positive) fun sample member => ?_
  obtain ⟨j, inside, rfl⟩ := List.mem_map.mp member
  rw [bus.wire_first risen (List.mem_range.mp inside), enabled]
  rfl

/-- The clock line rises at the second quarter. -/
theorem reads_second_rise
    (same : ∀ j < divider, (bus.core n).sda (bus.slave (n + divider + j)) = sda) :
    Reads .low (bus.samples (n + divider) divider) []
      (.high sda (some (.bit (bus.core n).sdaT sda))) := by
  rw [bus.samples_same fun j inside => by
    rw [bus.wire_second positive risen inside, same j inside]]
  exact reads_rise positive _ _

theorem reads_second_high
    (same : ∀ j < divider, (bus.core n).sda (bus.slave (n + divider + j)) = sda)
    (pending : Option Event) :
    Reads (.high sda pending) (bus.samples (n + divider) divider) [] (.high sda pending) := by
  rw [bus.samples_same fun j inside => by
    rw [bus.wire_second positive risen inside, same j inside]]
  exact reads_same _ _ _ _

/-- The data line keeps its level at the third quarter. -/
theorem reads_third_same
    (same : ∀ j < divider, (bus.core n).late (bus.slave (n + divider * 2 + j)) = sda)
    (pending : Option Event) :
    Reads (.high sda pending) (bus.samples (n + divider * 2) divider) []
      (.high sda pending) := by
  rw [bus.samples_same fun j inside => by
    rw [bus.wire_third positive risen inside, same j inside]]
  exact reads_same _ _ _ _

/-- The data line changes at the third quarter. -/
theorem reads_third_change
    (same : ∀ j < divider, (bus.core n).late (bus.slave (n + divider * 2 + j)) = sda)
    (pending : Option Event) :
    Reads (.high (!sda) pending) (bus.samples (n + divider * 2) divider)
      [if sda then .stop else .start] (.high sda none) := by
  rw [bus.samples_same fun j inside => by
    rw [bus.wire_third positive risen inside, same j inside]]
  exact reads_change positive _ _

/-- The clock line falls at the fourth quarter. -/
theorem reads_fourth_low (enabled : (bus.core n).sclEna = true) (before : Receiver) :
    Reads before (bus.samples (n + divider * 3) divider) before.pending .low := by
  refine reads_low before (bus.samples_ne_nil _ positive) fun sample member => ?_
  obtain ⟨j, inside, rfl⟩ := List.mem_map.mp member
  rw [bus.wire_fourth positive risen (List.mem_range.mp inside), enabled]
  rfl

/-- The clock line stays high at the fourth quarter. -/
theorem reads_fourth_high (enabled : (bus.core n).sclEna = false)
    (same : ∀ j < divider, (bus.core n).late (bus.slave (n + divider * 3 + j)) = sda)
    (pending : Option Event) :
    Reads (.high sda pending) (bus.samples (n + divider * 3) divider) []
      (.high sda pending) := by
  rw [bus.samples_same fun j inside => by
    rw [bus.wire_fourth positive risen inside, enabled, same j inside, Bool.not_false]]
  exact reads_same _ _ _ _

/-- From the last sample of the first quarter to the end of the third one the other side keeps its
level. -/
theorem slave_middle (released : (bus.core n).sdaT = true) {j : Nat} (inside : j ≤ divider * 2) :
    bus.slave (n + (divider - 1) + j) = bus.slave (n + (divider - 1)) := by
  refine bus.slave_steady (fun i within => ?_) inside
  by_cases early : i < divider
  · have wire := bus.wire_second positive risen early
    rw [show n + (divider - 1) + 1 + i = n + divider + i by omega]
    exact ⟨congrArg Sample.scl wire, (congrArg Sample.released wire).trans released⟩
  · have wire := bus.wire_third positive risen (j := i - divider) (by omega)
    rw [show n + (divider - 1) + 1 + i = n + divider * 2 + (i - divider) by omega]
    exact ⟨congrArg Sample.scl wire, (congrArg Sample.released wire).trans released⟩

/-- So the level sampled is on the data line in both quarters in which the clock line is high. -/
theorem sda_middle {j : Nat} (inside : j < divider * 2) :
    (bus.core n).sda (bus.slave (n + divider + j)) = bus.level n := by
  cases released : (bus.core n).sdaT with
  | false => simp [level, Core.sda, released]
  | true =>
    have here := bus.slave_middle positive risen released (j := j + 1) (by omega)
    have sampled := bus.slave_middle positive risen released (j := divider) (by omega)
    rw [show n + (divider - 1) + (j + 1) = n + divider + j by omega] at here
    rw [show n + (divider - 1) + divider = n + divider * 2 - 1 by omega] at sampled
    rw [level, here, sampled]

/-- A plain period with the clock line enabled carries a bit. -/
theorem reads_bit (plain : (bus.core n).Plain) (first : (bus.core n).sclEnaD = true)
    (last : (bus.core n).sclEna = true) :
    Reads .low (bus.samples n (divider * 4)) [.bit (bus.core n).sdaT (bus.level n)] .low := by
  rw [samples_period]
  refine ((bus.reads_first_low positive risen first .low).append
    ((bus.reads_second_rise positive risen fun j inside => ?_).append
      ((bus.reads_third_same positive risen (fun j inside => ?_) _).append
        (bus.reads_fourth_low positive risen last _))))
  · exact bus.sda_middle positive risen (by omega)
  · rw [plain.late, show n + divider * 2 + j = n + divider + (divider + j) by omega]
    exact bus.sda_middle positive risen (by omega)

/-- The start: the clock line is high until the last quarter, the data line falls. -/
theorem reads_start (start : (bus.core n).state = .stStart) (driven : (bus.core n).sdaT = false)
    (first : (bus.core n).sclEnaD = false) (last : (bus.core n).sclEna = true)
    (pending : Option Event) :
    Reads (.high true pending) (bus.samples n (divider * 4)) [.start] .low := by
  have high (slave : Bool) : (bus.core n).sda slave = true := by
    simp [Core.sda, Core.sdaOut, driven, start, risen.dataClk]
  have low (slave : Bool) : (bus.core n).late slave = false := by
    simp [Core.late, Core.phase, Core.sda, Core.sdaOut, driven, start]
  rw [samples_period]
  exact (bus.reads_first_high risen first (fun j _ => high _) pending).append
    ((bus.reads_second_high positive risen (fun j _ => high _) pending).append
      ((bus.reads_third_change positive risen (fun j _ => low _) pending).append
        (bus.reads_fourth_low positive risen last _)))

/-- The stop: the clock line stays high, the data line rises. -/
theorem reads_stop (stop : (bus.core n).state = .stStop) (driven : (bus.core n).sdaT = false)
    (first : (bus.core n).sclEnaD = true) (last : (bus.core n).sclEna = false) :
    Reads .low (bus.samples n (divider * 4)) [.stop] (.high true none) := by
  have low (slave : Bool) : (bus.core n).sda slave = false := by
    simp [Core.sda, Core.sdaOut, driven, stop, risen.dataClk]
  have high (slave : Bool) : (bus.core n).late slave = true := by
    simp [Core.late, Core.phase, Core.sda, Core.sdaOut, driven, stop]
  rw [samples_period]
  exact (bus.reads_first_low positive risen first .low).append
    ((bus.reads_second_rise positive risen fun j _ => low _).append
      ((bus.reads_third_change positive risen (fun j _ => high _) _).append
        (bus.reads_fourth_high positive risen last (fun j _ => high _) _)))

end Halves

section Stretched

variable (positive : 0 < divider) (risen : (bus.core n).Risen divider)
  (released : (bus.core n).sdaT = true) (last : (bus.core n).sclEna = false)
  (next : (bus.core (n + divider * 4)).sdaT = true)
  (first : (bus.core (n + divider * 4)).sclEnaD = false)

include positive risen released last next first

/-- While the clock is stretched over a period the other side keeps its level. -/
theorem slave_stretched {j : Nat} (inside : j ≤ divider * 6) :
    bus.slave (n + (divider - 1) + j) = bus.slave (n + (divider - 1)) := by
  have risen' := bus.risen_period positive risen
  refine bus.slave_steady (fun i within => ?_) inside
  have high : ∀ m, n + (divider - 1) + 1 + i = m →
      (bus.wire m).scl = true ∧ (bus.wire m).released = true →
      (bus.core (n + (divider - 1) + 1 + i)).scl = true ∧
        (bus.core (n + (divider - 1) + 1 + i)).sdaT = true := by
    rintro m rfl held
    exact held
  rcases Nat.lt_or_ge i divider with early | later
  · refine high (n + divider + i) (by omega) ?_
    rw [bus.wire_second positive risen early]
    exact ⟨rfl, released⟩
  rcases Nat.lt_or_ge i (divider * 2) with early | later
  · refine high (n + divider * 2 + (i - divider)) (by omega) ?_
    rw [bus.wire_third positive risen (by omega)]
    exact ⟨rfl, released⟩
  rcases Nat.lt_or_ge i (divider * 3) with early | later
  · refine high (n + divider * 3 + (i - divider * 2)) (by omega) ?_
    rw [bus.wire_fourth positive risen (by omega), last]
    exact ⟨rfl, released⟩
  rcases Nat.lt_or_ge i (divider * 4) with early | later
  · refine high (n + divider * 4 + (i - divider * 3)) (by omega) ?_
    rw [bus.wire_first risen' (by omega), first]
    exact ⟨rfl, next⟩
  rcases Nat.lt_or_ge i (divider * 5) with early | later
  · refine high (n + divider * 4 + divider + (i - divider * 4)) (by omega) ?_
    rw [bus.wire_second positive risen' (by omega)]
    exact ⟨rfl, next⟩
  · refine high (n + divider * 4 + divider * 2 + (i - divider * 5)) (by omega) ?_
    rw [bus.wire_third positive risen' (by omega)]
    exact ⟨rfl, next⟩

/-- Two periods with the clock line high from the middle of the first one to the end of the second
one carry one bit, which is the one sampled in the second period. -/
theorem reads_stretched (plain : (bus.core n).Plain)
    (plain' : (bus.core (n + divider * 4)).Plain) (low : (bus.core n).sclEnaD = true)
    (again : (bus.core (n + divider * 4)).sclEna = true) :
    Reads .low (bus.samples n (divider * 4) ++ bus.samples (n + divider * 4) (divider * 4))
      [.bit true (bus.level (n + divider * 4))] .low := by
  have risen' := bus.risen_period positive risen
  have steady {j : Nat} (inside : j ≤ divider * 6) :=
    bus.slave_stretched positive risen released last next first inside
  have sampled : bus.level (n + divider * 4) = bus.slave (n + (divider - 1)) := by
    have there := steady (j := divider * 5) (by omega)
    rw [show n + (divider - 1) + divider * 5 = n + divider * 4 + divider * 2 - 1 by omega] at there
    rw [level, Core.sda, next, if_pos rfl, there]
  have before {m : Nat} (place : n + divider ≤ m) (bound : m < n + divider * 4) :
      (bus.core n).sda (bus.slave m) = bus.level (n + divider * 4) := by
    have here := steady (j := m - (n + (divider - 1))) (by omega)
    rw [show n + (divider - 1) + (m - (n + (divider - 1))) = m by omega] at here
    rw [Core.sda, released, if_pos rfl, here, sampled]
  have after {m : Nat} (place : n + divider * 4 ≤ m) (bound : m < n + divider * 7) :
      (bus.core (n + divider * 4)).sda (bus.slave m) = bus.level (n + divider * 4) := by
    have here := steady (j := m - (n + (divider - 1))) (by omega)
    rw [show n + (divider - 1) + (m - (n + (divider - 1))) = m by omega] at here
    rw [Core.sda, next, if_pos rfl, here, sampled]
  rw [samples_period, samples_period, ← released]
  refine ((bus.reads_first_low positive risen low .low).append
    ((bus.reads_second_rise positive risen fun j inside => ?_).append
      ((bus.reads_third_same positive risen (fun j inside => ?_) _).append
        (bus.reads_fourth_high positive risen last (fun j inside => ?_) _)))).append
    ((bus.reads_first_high risen' first (fun j inside => ?_) _).append
      ((bus.reads_second_high positive risen' (fun j inside => ?_) _).append
        ((bus.reads_third_same positive risen' (fun j inside => ?_) _).append
          (bus.reads_fourth_low positive risen' again _))))
  · exact before (by omega) (by omega)
  · rw [plain.late]
    exact before (by omega) (by omega)
  · rw [plain.late]
    exact before (by omega) (by omega)
  · exact after (by omega) (by omega)
  · exact after (by omega) (by omega)
  · rw [plain'.late]
    exact after (by omega) (by omega)

end Stretched

end Bus

end K71GbE.I2c
