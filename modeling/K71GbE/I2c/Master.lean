/-
This file models `i2c_master`: the counter of rising edges of the core's busy
line and the state machine that gives the core one command after the other, with
the core it commands.

The state machine is clocked by `CLK` itself and sees the outputs of the core as
they are before the edge. The core sees the command and the operands as they are
after it.
-/

import K71GbE.I2c.Transaction

namespace K71GbE.I2c

open Clocked

/-- `machine_type`. -/
inductive MasterState where
  | stWaitStart | stWr1 | stWr2 | stWr3 | stRd1 | stRd2
deriving DecidableEq, Repr

/-- The inputs of the entity but for `START` and the lines of the bus. -/
structure Operands where
  mode : BitVec 2
  slRw : Bool
  slAddr : BitVec 7
  regAddr : BitVec 8
  wrData0 : BitVec 8
  wrData1 : BitVec 8
deriving DecidableEq, Repr

/-- The registers of the entity. -/
structure Master where
  state : MasterState
  enable : Bool
  dataWr : BitVec 8
  busy : Bool
  busyCnt : BitVec 3
  busyD1 : Bool
  busyD2 : Bool
  rdData0 : BitVec 8
  rdData1 : BitVec 8
deriving DecidableEq, Repr

/-- The bytes that a write sends behind the address: `REG_ADDR`, `WR_DATA0` and `WR_DATA1`. -/
def Operands.payload (operands : Operands) : Nat → BitVec 8
  | 0 => operands.regAddr
  | 1 => operands.wrData0
  | _ => operands.wrData1

/-- The state that serves a command, or `stWaitStart` if there is none. -/
def Operands.serving (operands : Operands) : MasterState :=
  if operands.slRw = false then
    if operands.mode = 0 then .stWr1
    else if operands.mode = 1 then .stWr2
    else if operands.mode = 2 then .stWr3
    else .stWaitStart
  else
    if operands.mode = 0 then .stRd1
    else if operands.mode = 1 then .stRd2
    else .stWaitStart

namespace Master

/-- The asynchronous reset, with an edge of `CLK` in it: the two delays of the busy line are not
reset. -/
def resetClock (master : Master) (coreBusy : Bool) : Master :=
  ⟨.stWaitStart, false, 0, false, 0, coreBusy, master.busyD1, 0, 0⟩

/-- A state that writes `bytes` bytes. -/
def serveWrite (master : Master) (bytes : Nat) (operands : Operands) (coreBusy : Bool) : Master :=
  if master.busyCnt.toNat < bytes then
    { master with
      busy := true
      enable := true
      dataWr := operands.payload master.busyCnt.toNat }
  else if master.busyCnt.toNat = bytes then
    { master with
      busy := true
      enable := false
      dataWr := operands.payload (bytes - 1)
      state := if coreBusy then master.state else .stWaitStart }
  else { master with busy := true, enable := false, dataWr := 0, state := .stWaitStart }

/-- A byte arrives in one of the two buffers; which one follows from the counter. -/
def keepByte (master : Master) (coreDataRd : BitVec 8) : Master :=
  if master.busyCnt.toNat = 1 then { master with rdData0 := coreDataRd }
  else if master.busyCnt.toNat = 2 then { master with rdData1 := coreDataRd }
  else master

/-- A state that reads `bytes` bytes. -/
def serveRead (master : Master) (bytes : Nat) (coreBusy : Bool) (coreDataRd : BitVec 8) :
    Master :=
  let next := { master with busy := true, dataWr := 0 }
  if master.busyCnt.toNat < bytes then
    let next := if coreBusy then next else next.keepByte coreDataRd
    { next with enable := true }
  else if master.busyCnt.toNat = bytes then
    let next := if coreBusy then next else next.keepByte coreDataRd
    { next with
      enable := false
      state := if coreBusy then master.state else .stWaitStart }
  else { next with enable := false, state := .stWaitStart }

/-- The state machine. -/
def serve (master : Master) (start : Bool) (operands : Operands) (coreBusy : Bool)
    (coreDataRd : BitVec 8) : Master :=
  match master.state with
  | .stWaitStart =>
    { master with
      enable := false
      dataWr := 0
      busy := start
      state := if start then operands.serving else .stWaitStart }
  | .stWr1 => master.serveWrite 1 operands coreBusy
  | .stWr2 => master.serveWrite 2 operands coreBusy
  | .stWr3 => master.serveWrite 3 operands coreBusy
  | .stRd1 => master.serveRead 1 coreBusy coreDataRd
  | .stRd2 => master.serveRead 2 coreBusy coreDataRd

/-- The counter of rising edges of the busy line. -/
def count (master : Master) : BitVec 3 :=
  if master.state = .stWaitStart then 0
  else if master.busyD2 = false ∧ master.busyD1 = true then master.busyCnt + 1
  else master.busyCnt

/-- One rising edge of `CLK`. -/
def clock (master : Master) (start : Bool) (operands : Operands) (coreBusy : Bool)
    (coreDataRd : BitVec 8) : Master :=
  { master.serve start operands coreBusy coreDataRd with
    busyCnt := master.count
    busyD1 := coreBusy
    busyD2 := master.busyD1 }

end Master

/-- The entity with its core, before each edge of `CLK` since the end of a reset. `START` and the
operands are those of the edge; the other side keeps its level while the clock line is high and the
data line is left to it. -/
structure MasterRun (divider : Nat) where
  master : Nat → Master
  core : Nat → Core
  start : Nat → Bool
  operands : Nat → Operands
  slave : Nat → Bool
  reset : ∃ before : Master, master 0 = before.resetClock true
  coreReset : ∃ before : Core, core 0 = before.reset
  clocked : ∀ n, master (n + 1) =
    (master n).clock (start n) (operands n) (core n).busy (core n).dataRd
  coreClocked : ∀ n, core (n + 1) = (core n).clock divider
    ⟨(master (n + 1)).enable, (operands (n + 1)).slAddr, (operands (n + 1)).slRw,
      (master (n + 1)).dataWr⟩ ((core n).sda (slave n))
  steady : ∀ n, (core (n + 1)).scl = true → (core (n + 1)).sdaT = true → slave (n + 1) = slave n

end K71GbE.I2c
