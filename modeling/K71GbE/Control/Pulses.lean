/-
This file follows what a command leaves behind at the other outputs of
`control_interface`: the pulses on `PULSE_REG` and the words stored in the memory.

A pulse write holds its mask for three clocks, and the next command is not
interpreted before it is over. The log of the output is therefore three samples
of the mask of each pulse write, one write after another.
-/

import K71GbE.Control.Consumption

namespace K71GbE.Control

open Clocked

namespace ControlInterface

/-- The mask that a pulse write puts into `sPulseReg` at this edge. -/
def pulseWrite (old : ControlInterface) (ports : Ports) : Option (BitVec 16) :=
  if old.cmdState = .interpretCmd ∧ readNotWrite ports.cmdFifoQ = false ∧
      target (addressI ports.cmdFifoQ) = .pulseReg then
    some (dataOf ports.cmdFifoQ)
  else none

/-- For how many more clocks `sPulseReg` keeps a pulse. -/
def left (control : ControlInterface) : Nat :=
  if control.sPulseReg = 0 then 0
  else
    match control.cmdState with
    | .pulseDelay => control.counterV.toNat + 1
    | _ => 1

/-- A pulse stands only while its write is delayed, and in the wait state behind it. -/
structure Pulsing (control : ControlInterface) : Prop where
  clear : control.cmdState ≠ .pulseDelay → control.cmdState ≠ .waitCmd → control.sPulseReg = 0
  delay : control.cmdState = .pulseDelay → control.counterV = 2 ∨ control.counterV = 1

theorem Pulsing.powerOn : ControlInterface.powerOn.Pulsing := by
  constructor <;> simp [ControlInterface.powerOn, asyncReset]

/-- The registered half of the memory input is free. -/
theorem Pulsing.latch {control : ControlInterface} (pulsing : control.Pulsing)
    (high : BitVec 16) : { control with sDinHigh := high }.Pulsing := ⟨pulsing.clear, pulsing.delay⟩

theorem left_eq_zero {control : ControlInterface} : control.left = 0 ↔ control.sPulseReg = 0 := by
  unfold left
  split_ifs with clear
  · exact iff_of_true rfl clear
  · refine iff_of_false ?_ clear
    split <;> simp

/-- What an edge does to the pulse: a write starts one, and only where none stands; every other edge
takes one clock from the pulse that stands. -/
structure Pulsed (old : ControlInterface) (written : Option (BitVec 16))
    (next : ControlInterface) : Prop where
  pulsing : next.Pulsing
  clear : written ≠ none → old.sPulseReg = 0
  level : next.sPulseReg = written.getD (if old.left ≤ 1 then 0 else old.sPulseReg)
  left : next.left = (written.map fun mask => if mask = 0 then 0 else 3).getD (old.left - 1)

theorem Step.pulsed {old next : ControlInterface} {ports : Ports} (pulsing : old.Pulsing)
    (step : Step old ports next) : Pulsed old (old.pulseWrite ports) next := by
  obtain ⟨clear, delay⟩ := pulsing
  unfold pulseWrite
  cases step with
  | interpret state moved =>
    have cleared : old.sPulseReg = 0 := clear (by simp [state]) (by simp [state])
    cases moved with
    | writePulse notRead register =>
      rw [if_pos ⟨state, notRead, register⟩]
      refine ⟨⟨by simp, by simp⟩, fun _ => cleared, rfl, ?_⟩
      simp [ControlInterface.left]
    | readRegister read _ | readMemory read _ _ | stall read _ _ =>
      rw [if_neg fun write => by simp [read] at write]
      constructor
      · constructor <;> simp [defaults, cleared, state]
      all_goals simp [ControlInterface.left, defaults, cleared]
    | writeOthers _ register =>
      rw [if_neg fun write => by simp [write.2.2] at register]
      constructor
      · constructor <;> simp [defaults, cleared]
      all_goals simp [ControlInterface.left, defaults, cleared]
    | writeConfig _ _ register | writeCount _ register | writeAddrLow _ register
    | writeAddrHigh _ register | writeMemLow _ register | writeMemHigh _ register
    | writeDataFifo _ register =>
      rw [if_neg fun write => by simp [register] at write]
      constructor
      · constructor <;> simp [defaults, cleared]
      all_goals simp [ControlInterface.left, defaults, cleared]
  | pulseDone state last =>
    rw [if_neg fun write => by simp [state] at write]
    by_cases noBit : old.sPulseReg = 0#16
    · constructor
      · constructor <;> simp [defaults, noBit]
      all_goals simp [ControlInterface.left, defaults, noBit]
    · constructor
      · constructor <;> simp [defaults]
      all_goals simp [ControlInterface.left, defaults, noBit, state, last]
  | pulseHold state more =>
    have two : old.counterV = 2 := (delay state).resolve_right more
    rw [if_neg fun write => by simp [state] at write]
    by_cases noBit : old.sPulseReg = 0#16
    · constructor
      · constructor <;> simp [defaults, noBit, two]
      all_goals simp [ControlInterface.left, defaults, noBit]
    · constructor
      · constructor <;> simp [defaults, state, two]
      all_goals simp [ControlInterface.left, defaults, noBit, state, two]
  | wait state | fetch state =>
    rw [if_neg fun write => by simp [state] at write]
    have ended : old.left ≤ 1 := by
      rw [ControlInterface.left, state]
      split <;> simp
    constructor
    · constructor <;> simp [defaults, state]
    all_goals simp [left_eq_zero, defaults, state, ended]
  | init state | memAdv state | memDone state | memNext state | memHold state | transferDone state
  | transferNext state | transferHold state | others state =>
    have cleared : old.sPulseReg = 0 := clear (by simp [state]) (by simp [state])
    rw [if_neg fun write => by simp [state] at write]
    constructor
    · constructor <;> simp [defaults, cleared, state]
    all_goals simp [ControlInterface.left, defaults, cleared]

/-- Outside reset every edge is such a step. -/
theorem Pulsing.clock {control : ControlInterface} (pulsing : control.Pulsing) (ports : Ports)
    (noReset : ports.reset = false) :
    Pulsed control (control.pulseWrite ports) (control.clock ports) := by
  obtain ⟨kept, clear, level, left⟩ := (cmdIF_step control ports).pulsed pulsing
  rw [ControlInterface.clock, noReset, if_neg Bool.false_ne_true]
  exact ⟨kept.latch _, clear, level, left⟩

/-- While a pulse is written or stands, the configuration registers keep their values. -/
theorem Step.config_kept {old next : ControlInterface} {ports : Ports} (pulsing : old.Pulsing)
    (step : Step old ports next) (pulse : old.pulseWrite ports ≠ none ∨ old.sPulseReg ≠ 0) :
    next.sConfigReg = old.sConfigReg := by
  cases step with
  | init state =>
    rcases pulse with write | standing
    · exact absurd (if_neg fun write => by simp [state] at write) write
    · exact absurd (pulsing.clear (by simp [state]) (by simp [state])) standing
  | interpret state moved =>
    cases moved with
    | writeConfig i notRead register =>
      rcases pulse with write | standing
      · exact absurd (if_neg fun write => by simp [register] at write) write
      · exact absurd (pulsing.clear (by simp [state]) (by simp [state])) standing
    | _ => rfl
  | _ => rfl

theorem Pulsing.config_kept {control : ControlInterface} (pulsing : control.Pulsing)
    (ports : Ports) (noReset : ports.reset = false)
    (pulse : control.pulseWrite ports ≠ none ∨ control.sPulseReg ≠ 0) :
    (control.clock ports).sConfigReg = control.sConfigReg := by
  have kept := (cmdIF_step control ports).config_kept pulsing pulse
  rwa [ControlInterface.clock, noReset, if_neg Bool.false_ne_true]

/-! ### One bit of a pulse -/

/-- The command interpreted at this edge writes bit `i` of the pulse register. -/
def writesBit (old : ControlInterface) (ports : Ports) (i : Nat) : Bool :=
  match old.pulseWrite ports with
  | some mask => mask.getLsbD i
  | none => false

section Bit

variable {control : ControlInterface} {i : Nat} (pulsing : control.Pulsing) (ports : Ports)
  (noReset : ports.reset = false)

include pulsing noReset

/-- A write of the bit finds it low, and raises it for three clocks. -/
theorem Pulsing.bit_of_write (write : control.writesBit ports i = true) :
    control.sPulseReg = 0 ∧ (control.clock ports).sPulseReg.getLsbD i = true ∧
      (control.clock ports).left = 3 := by
  obtain ⟨_, clear, level, left⟩ := pulsing.clock ports noReset
  rw [writesBit] at write
  cases written : control.pulseWrite ports with
  | none => simp [written] at write
  | some mask =>
    rw [written] at write clear level left
    have nonzero : mask ≠ 0 := fun zero => by simp [zero] at write
    exact ⟨clear (by simp), (congrArg (BitVec.getLsbD · i) level).trans write,
      left.trans (if_neg nonzero)⟩

/-- Otherwise the bit runs down. -/
theorem Pulsing.bit_of_not_write (quiet : control.writesBit ports i = false) :
    (control.clock ports).sPulseReg.getLsbD i =
        (control.sPulseReg.getLsbD i && decide (1 < control.left)) ∧
      ((control.clock ports).sPulseReg.getLsbD i = true →
        (control.clock ports).left = control.left - 1) := by
  obtain ⟨_, clear, level, left⟩ := pulsing.clock ports noReset
  rw [writesBit] at quiet
  have next : (control.clock ports).sPulseReg.getLsbD i =
    ((control.pulseWrite ports).getD
      (if control.left ≤ 1 then 0 else control.sPulseReg)).getLsbD i :=
    congrArg (BitVec.getLsbD · i) level
  cases written : control.pulseWrite ports with
  | some mask =>
    rw [written] at quiet clear next
    have next : (control.clock ports).sPulseReg.getLsbD i = false := next.trans quiet
    have low : control.sPulseReg.getLsbD i = false := by
      rw [clear (by simp)]
      exact BitVec.getLsbD_zero
    rw [low, next]
    exact ⟨rfl, fun high => by cases high⟩
  | none =>
    rw [written] at next left
    refine ⟨next.trans ?_, fun _ => left⟩
    by_cases ended : control.left ≤ 1
    · simp [ended, Nat.not_lt.mpr ended]
    · simp [ended, Nat.lt_of_not_le ended]

end Bit

end ControlInterface

/-- `count` samples of a mask; a clear register is not sampled. -/
def samples (count : Nat) (mask : BitVec 16) : List (BitVec 16) :=
  if mask = 0 then [] else List.replicate count mask

/-- What a command word puts on `PULSE_REG`: three samples of the mask. -/
def Interpreter.pulses (_ : Interpreter) (given : Given) : List (BitVec 16) :=
  if readNotWrite given.word = false ∧ target (addressI given.word) = .pulseReg then
    samples 3 (dataOf given.word)
  else []

/-- What a command word stores in the memory, with the address. -/
def Interpreter.stores (state : Interpreter) (given : Given) : List (BitVec 32 × BitVec 32) :=
  if readNotWrite given.word = false ∧ target (addressI given.word) = .memHigh then
    [(state.address, dataOf given.word ++ state.low)]
  else []

namespace System

/-- `PULSE_REG` at this edge, unless it is clear. -/
def pulse (system : System) (_ : Tick) : List (BitVec 16) := samples 1 system.control.sPulseReg

/-- The word that the memory stores at this edge. -/
def store (system : System) (_ : Tick) : List (BitVec 32 × BitVec 32) :=
  if system.control.sWea then [(system.control.sAddrA, system.control.sDinA)] else []

section Step

variable {traffic : Traffic} {system : System} {tick : Tick}

theorem pulsed (pulsing : system.control.Pulsing) (traffic : Traffic) (tick : Tick) :
    ControlInterface.Pulsed system.control
      (system.control.pulseWrite (system.ports traffic tick))
      (system.clock traffic tick).control :=
  pulsing.clock _ rfl

/-- Outside the interpretation of a command no pulse starts. -/
theorem pulseWrite_of_other (traffic : Traffic) (tick : Tick)
    (state : system.control.cmdState ≠ .interpretCmd) :
    system.control.pulseWrite (system.ports traffic tick) = none :=
  if_neg fun write => state write.1

/-- A command starts the pulse that its word names. -/
theorem Fetching.pulseWrite_eq (fetching : system.Fetching) (traffic : Traffic) (tick : Tick)
    (state : system.control.cmdState = .interpretCmd) :
    system.control.pulseWrite (system.ports traffic tick) =
      if readNotWrite (traffic.commands system.cmdFifo.popped) = false ∧
          target (addressI (traffic.commands system.cmdFifo.popped)) = .pulseReg then
        some (dataOf (traffic.commands system.cmdFifo.popped))
      else none := by
  have word : (system.ports traffic tick).cmdFifoQ =
      0#4 ++ traffic.commands system.cmdFifo.popped := fetching.cmdFifoQ_eq state
  rw [ControlInterface.pulseWrite, word, readNotWrite_append, addressI_append, dataOf_append]
  exact if_congr (and_iff_right state) rfl rfl

/-- While a pulse stands no command is interpreted, and the pulse runs down. -/
theorem Fetching.pulse_hold (fetching : system.Fetching) (pulsing : system.control.Pulsing)
    (traffic : Traffic) (tick : Tick) (standing : system.control.sPulseReg ≠ 0) :
    (system.clock traffic tick).control.left = system.control.left - 1 ∧
      (1 < system.control.left →
        (system.clock traffic tick).control.sPulseReg = system.control.sPulseReg) ∧
      (system.clock traffic tick).cmdFifo.popped = system.cmdFifo.popped := by
  have state : system.control.cmdState ≠ .interpretCmd := fun state =>
    standing (pulsing.clear (by simp [state]) (by simp [state]))
  obtain ⟨_, _, level, left⟩ := pulsed pulsing traffic tick
  rw [pulseWrite_of_other traffic tick state] at level left
  refine ⟨left, fun more => ?_, ?_⟩
  · rw [level, if_neg (Nat.not_le.mpr more)]
    rfl
  · rw [fetching.clock_popped, if_neg state]

/-- The samples that are still to come. -/
def pulsesOwed (system : System) : List (BitVec 16) :=
  samples system.control.left system.control.sPulseReg

theorem pulse_clock (pulsing : system.control.Pulsing) (traffic : Traffic) (tick : Tick) :
    system.pulse tick ++ (system.clock traffic tick).pulsesOwed =
      system.pulsesOwed ++
        ((system.control.pulseWrite (system.ports traffic tick)).map (samples 3)).getD [] := by
  obtain ⟨_, clear, level, left⟩ := pulsed pulsing traffic tick
  unfold pulse pulsesOwed
  cases written : system.control.pulseWrite (system.ports traffic tick) with
  | some mask =>
    have before : system.control.sPulseReg = 0 := clear (by simp [written])
    rw [written] at level left
    rw [before, level, left]
    by_cases noBit : mask = 0#16 <;> simp [samples, noBit]
  | none =>
    rw [written] at level left
    rw [level, left]
    by_cases noBit : system.control.sPulseReg = 0#16
    · simp [samples, noBit]
    · obtain ⟨more, counted⟩ := Nat.exists_eq_add_one_of_ne_zero
        (mt ControlInterface.left_eq_zero.mp noBit)
      cases more with
      | zero => simp [samples, noBit, counted]
      | succ more => simp [samples, noBit, counted, List.replicate_succ]

/-- The pulses of `control_interface` are those of the command words. -/
def pulseRefinement (traffic : Traffic) :
    Refinement (clock traffic) (fun state given => Interpreter.step state (Given.word given))
      Interpreter.pulses where
  holds system := system.Coherent ∧ system.control.Pulsing
  admits system tick := system.Regular traffic tick
  taken := received traffic
  emitted := pulse
  meaning := meaning
  owed := pulsesOwed
  preserved system tick holds regular :=
    ⟨holds.1.clock regular, (pulsed holds.2 traffic tick).pulsing⟩
  commutes system tick holds regular :=
    (refinement traffic).commutes system tick holds.1 regular
  replies system tick holds regular := by
    obtain ⟨coherent, pulsing⟩ := holds
    rw [pulse_clock pulsing]
    refine congrArg (system.pulsesOwed ++ ·) ?_
    by_cases state : system.control.cmdState = .interpretCmd
    · rw [coherent.toFetching.received_of_interpret state,
        coherent.toFetching.pulseWrite_eq traffic tick state, log_cons, log_nil, List.append_nil,
        Interpreter.pulses]
      split <;> rfl
    · rw [coherent.toFetching.received_of_other state, pulseWrite_of_other traffic tick state,
        log_nil]
      rfl

/-- A store is registered at the edge that interprets it. -/
theorem Coherent.store_clock (coherent : system.Coherent) (traffic : Traffic) (tick : Tick)
    (state : system.control.cmdState = .interpretCmd) :
    (system.clock traffic tick).store tick =
      system.meaning.stores ⟨traffic.commands system.cmdFifo.popped, tick.statusReg⟩ := by
  obtain ⟨next, moved, control⟩ := coherent.toFetching.interpretation traffic tick state
  unfold store Interpreter.stores
  rw [control]
  cases moved with
  | writeMemHigh notRead selected =>
    simp [notRead, selected, ControlInterface.defaults, ControlInterface.sDinA, meaning, state]
  | readRegister read _ | readMemory read _ _ | stall read _ _ =>
    simp [read, ControlInterface.defaults]
  | writeOthers notRead selected =>
    rcases selected with ⟨i, selected⟩ | selected <;>
      simp [selected, ControlInterface.defaults]
  | writeConfig _ notRead selected | writePulse notRead selected | writeCount notRead selected
  | writeAddrLow notRead selected | writeAddrHigh notRead selected
  | writeMemLow notRead selected | writeDataFifo notRead selected =>
    simp [selected, ControlInterface.defaults]

/-- Elsewhere none is. -/
theorem Coherent.store_clock_of_other (coherent : system.Coherent)
    (regular : system.Regular traffic tick)
    (state : system.control.cmdState ≠ .interpretCmd) :
    (system.clock traffic tick).store tick = [] := by
  have after := (coherent.clock regular).control.writing
  have notAdv : (system.clock traffic tick).control.cmdState ≠ .memAdv := by
    obtain ⟨next, step, control⟩ := system.clock_step traffic tick
    rw [control]
    cases step with
    | interpret before => exact absurd before state
    | _ => simp_all [ControlInterface.defaults]
  rw [store, after, decide_eq_false notAdv, if_neg Bool.false_ne_true]

/-- The words stored in the memory are those of the command words. -/
def storeRefinement (traffic : Traffic) :
    Refinement (clock traffic) (fun state given => Interpreter.step state (Given.word given))
      Interpreter.stores where
  holds := Coherent
  admits system tick := system.Regular traffic tick
  taken := received traffic
  emitted := store
  meaning := meaning
  owed system := system.store .quiet
  preserved := (refinement traffic).preserved
  commutes := (refinement traffic).commutes
  replies system tick coherent regular := by
    refine congrArg (system.store .quiet ++ ·) ?_
    by_cases state : system.control.cmdState = .interpretCmd
    · rw [coherent.toFetching.received_of_interpret state, log_cons, log_nil, List.append_nil]
      exact coherent.store_clock traffic tick state
    · rw [coherent.toFetching.received_of_other state, log_nil]
      exact coherent.store_clock_of_other regular state

end Step

end System

end K71GbE.Control
