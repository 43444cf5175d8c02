/-
This file models `i2c_master_core`: the divider that makes `scl_clk` and
`data_clk`, the delayed enable of the clock line, and the state machine with its
two clocked parts, one for each edge of `data_clk`.

The derived clocks are registers of `CLK`, so everything they clock follows an
edge of `CLK` and sees the inputs as they are after it. `DIVIDER` is a parameter.
Signals without an initial value in the source power up low.
-/

import K71GbE.Clocked.Parts

namespace K71GbE.I2c

open Clocked

/-- `machine_type`. -/
inductive CoreState where
  | stReady | stStart | stCommand | stSlvAck1 | stWr | stRd | stSlvAck2 | stMstrAck | stRdWait
  | stStop
deriving DecidableEq, Repr

/-- The registers of the entity, with the variable of the divider. -/
structure Core where
  count : Nat
  sclClk : Bool
  dataClk : Bool
  sclEnaD : Bool
  state : CoreState
  busy : Bool
  sclEna : Bool
  sdaInt : Bool
  sdaT : Bool
  bitCnt : Nat
  addrRw : BitVec 8
  dataTx : BitVec 8
  dataRx : BitVec 8
  dataRd : BitVec 8
  sAckError : Bool
deriving DecidableEq, Repr

/-- `ENA`, `ADDR`, `RW` and `DATA_WR`. -/
structure Command where
  ena : Bool
  addr : BitVec 7
  rW : Bool
  dataWr : BitVec 8
deriving DecidableEq, Repr

/-- `ADDR & RW`. -/
def Command.addrRw (command : Command) : BitVec 8 := command.addr ++ BitVec.ofBool command.rW

namespace Core

/-- The asynchronous reset. The derived clocks, the delayed enable and the shift registers are not
in it. -/
def reset (core : Core) : Core :=
  { core with
    count := 0
    state := .stReady
    busy := true
    sclEna := false
    sdaInt := true
    sdaT := true
    bitCnt := 7
    dataRd := 0
    sAckError := false }

/-- The divider and the derived clocks after an edge of `CLK`. -/
def divide (divider : Nat) (core : Core) : Core :=
  let count := if core.count = divider * 4 - 1 then 0 else core.count + 1
  { core with
    count := count
    sclClk := !decide (count < divider * 2)
    dataClk := !decide (count < divider) && decide (count < divider * 3) }

/-- The state machine at a rising edge of `data_clk`. -/
def advance (core : Core) (command : Command) : Core :=
  match core.state with
  | .stReady =>
    let next := { core with sdaT := false, sdaInt := true }
    if command.ena then
      { next with
        busy := true
        addrRw := command.addrRw
        dataTx := command.dataWr
        sclEna := true
        state := .stStart }
    else { next with busy := false, state := .stReady }
  | .stStart =>
    { core with busy := true, sdaInt := core.addrRw.getLsbD core.bitCnt, state := .stCommand }
  | .stCommand =>
    if core.bitCnt = 0 then
      { core with sdaT := true, sdaInt := true, bitCnt := 7, state := .stSlvAck1 }
    else
      { core with
        bitCnt := core.bitCnt - 1
        sdaInt := core.addrRw.getLsbD (core.bitCnt - 1)
        state := .stCommand }
  | .stSlvAck1 =>
    if core.addrRw.getLsbD 0 = false then
      { core with sdaT := false, sdaInt := core.dataTx.getLsbD core.bitCnt, state := .stWr }
    else { core with sdaT := true, state := .stRd }
  | .stWr =>
    let next := { core with busy := true }
    if core.bitCnt = 0 then
      { next with sdaT := true, sdaInt := true, bitCnt := 7, state := .stSlvAck2 }
    else
      { next with
        bitCnt := core.bitCnt - 1
        sdaInt := core.dataTx.getLsbD (core.bitCnt - 1)
        state := .stWr }
  | .stRd =>
    let next := { core with busy := true }
    if core.bitCnt = 0 then
      { next with
        sdaT := false
        sdaInt := !(command.ena && command.rW)
        bitCnt := 7
        dataRd := core.dataRx
        state := .stMstrAck }
    else { next with bitCnt := core.bitCnt - 1, state := .stRd }
  | .stSlvAck2 =>
    let next := { core with sdaT := false }
    if command.ena then
      let next :=
        { next with busy := false, addrRw := command.addrRw, dataTx := command.dataWr }
      if command.rW then { next with sdaInt := true, state := .stStart }
      else { next with sdaInt := command.dataWr.getLsbD core.bitCnt, state := .stWr }
    else { next with sclEna := false, state := .stStop }
  | .stMstrAck =>
    if command.ena then
      let next :=
        { core with busy := false, addrRw := command.addrRw, dataTx := command.dataWr }
      if command.rW = false then { next with state := .stStart }
      else { next with sdaT := true, sdaInt := true, sclEna := false, state := .stRdWait }
    else { core with sclEna := false, state := .stStop }
  | .stRdWait => { core with sclEna := true, state := .stRd }
  | .stStop => { core with sclEna := false, busy := false, state := .stReady }

/-- The state machine at a falling edge of `data_clk`. -/
def sample (core : Core) (sdaIn : Bool) : Core :=
  match core.state with
  | .stStart => { core with sAckError := false }
  | .stSlvAck1 | .stSlvAck2 => { core with sAckError := sdaIn || core.sAckError }
  | .stRd => { core with dataRx := setPart core.dataRx core.bitCnt (BitVec.ofBool sdaIn) }
  | _ => core

/-- One rising edge of `CLK`, with the clocks derived from it. -/
def clock (divider : Nat) (core : Core) (command : Command) (sdaIn : Bool) : Core :=
  let next := core.divide divider
  let next := if !core.sclClk && next.sclClk then { next with sclEnaD := core.sclEna } else next
  let next := if !core.dataClk && next.dataClk then next.advance command else next
  if core.dataClk && !next.dataClk then next.sample sdaIn else next

/-- `SDA_out`. -/
def sdaOut (core : Core) : Bool :=
  match core.state with
  | .stStart => core.dataClk
  | .stStop => !core.dataClk
  | _ => core.sdaInt

/-- `SCL`. -/
def scl (core : Core) : Bool := if core.sclEnaD then core.sclClk else true

/-- The data line: what the core drives, or the level the other side gives it. -/
def sda (core : Core) (slave : Bool) : Bool := if core.sdaT then slave else core.sdaOut

end Core

end K71GbE.I2c
