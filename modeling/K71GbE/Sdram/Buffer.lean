/-
This file models `sdram_buffer_fifo`: the status process, the write FSM, the
read FSM and the outputs towards the memory controller, and the three pulse
converters in front of them.

Each process keeps the registers it drives in a structure of its own and is
translated statement by statement: an update of `next` is a signal assignment,
a later one wins, and the right-hand sides read the registers from before the
edge, which `core` holds. `CTRL_RESET` and `RESET` are asynchronous, so the state in force at an
edge is the settled one. Registers without an initial value in the source power
up low.
-/

import K71GbE.Pulse2pulse
import K71GbE.Clocked.Machine
import Mathlib.Data.BitVec

namespace K71GbE.Sdram

variable {w : Nat}

/-! ### Addresses -/

/-- `'0' & address(w-2 DOWNTO 0)`: the address inside the memory. -/
def memoryAddress (address : BitVec w) : BitVec w :=
  BitVec.ofNat w (address.toNat % 2 ^ (w - 1))

/-- `'1' & begin(w-2 DOWNTO 0)`: the begin address one memory size further on. -/
def wrapAddress (begin : BitVec w) : BitVec w :=
  BitVec.ofNat w (2 ^ (w - 1) + begin.toNat % 2 ^ (w - 1))

/-- `address + APP_ADDR_BURST`, which wraps at the register's width. -/
def advance (burst : Nat) (address : BitVec w) : BitVec w := address + BitVec.ofNat w burst

/-! ### Ports and registers -/

/-- The levels at the input ports of the entity at one rising edge of `CLK`, with the flags of
the two FIFOs inside it. -/
structure Ports (w : Nat) where
  reset : Bool
  appRdy : Bool
  appWdfRdy : Bool
  appRdDataValid : Bool
  ctrlReset : Bool
  wrStart : Bool
  wrAddrBegin : BitVec w
  wrStop : Bool
  wrWrapAround : Bool
  postTrigger : BitVec w
  rdStart : Bool
  rdAddrBegin : BitVec w
  rdAddrEnd : BitVec w
  dataFifoReset : Bool
  indataFifoEmpty : Bool
  outdataFifoFull : Bool
deriving DecidableEq, Repr

/-- Every input low and the input FIFO empty. -/
def Ports.low : Ports w :=
  ⟨false, false, false, false, false, false, 0, false, false, 0, false, 0, 0, false, true, false⟩

/-- What the three processes see at an edge: the ports and the converted pulses. -/
structure Edge (w : Nat) extends Ports w where
  wrStartPulse : Bool
  wrStopPulse : Bool
  rdStartPulse : Bool
deriving DecidableEq, Repr

/-- `RESET = '1' OR CTRL_RESET = '1'`. -/
def Ports.inReset (ports : Ports w) : Bool := ports.reset || ports.ctrlReset

/-- `read_state_type`. -/
inductive ReadState where
  | R0 | R1 | R2 | R3 | R4
deriving DecidableEq, Repr

/-- `write_state_type`. -/
inductive WriteState where
  | W0 | W1 | W2 | W3 | W4
deriving DecidableEq, Repr

/-- The registers of the status process. -/
structure Status (w : Nat) where
  wrAddrBeginReg : BitVec w
  wrWrapAroundReg : Bool
  postTriggerReg : BitVec w
  triggerPointerReg : BitVec w
  wrWrappedI : Bool
  wrStopping : Bool
  wrWriting : Bool
  rdAddrBeginReg : BitVec w
  rdAddrEndReg : BitVec w
  rdReading : Bool
deriving DecidableEq, Repr

/-- The registers of the write process. -/
structure Writer (w : Nat) where
  wrAddrI : BitVec w
  writeState : WriteState
  indataFifoRden : Bool
  wrWdfWren : Bool
  wrWdfEnd : Bool
  wrAppEn : Bool
deriving DecidableEq, Repr

/-- The registers of the read process. -/
structure Reader (w : Nat) where
  rdAddrI : BitVec w
  rdAppEn : Bool
  readState : ReadState
deriving DecidableEq, Repr

/-- The registers of the three processes. -/
structure Core (w : Nat) where
  status : Status w
  writer : Writer w
  reader : Reader w
deriving DecidableEq, Repr

/-! ### Reset -/

/-- The reset branches of the three processes. What a branch does not assign is kept: the
trigger pointer, and the four strobes of the write process. -/
def Core.asyncReset (core : Core w) : Core w where
  status :=
    { wrAddrBeginReg := 0
      wrWrapAroundReg := false
      postTriggerReg := 0
      triggerPointerReg := core.status.triggerPointerReg
      wrWrappedI := false
      wrStopping := false
      wrWriting := false
      rdAddrBeginReg := 0
      rdAddrEndReg := BitVec.ofNat w (2 ^ (w - 1))
      rdReading := false }
  writer := { core.writer with wrAddrI := 0, writeState := .W0 }
  reader := { rdAddrI := 0, rdAppEn := false, readState := .R0 }

/-- The state after power-on and reset. -/
def Core.powerOn : Core w :=
  Core.asyncReset
    { status := ⟨0, false, 0, 0, false, false, false, 0, 0, false⟩
      writer := ⟨0, .W0, false, false, false, false⟩
      reader := ⟨0, false, .R0⟩ }

/-- The state in force at an edge. -/
def Core.settle (core : Core w) (ports : Ports w) : Core w :=
  if ports.inReset then core.asyncReset else core

/-! ### The status process -/

/-- `wr_addr_i >= '1' & wr_addr_begin_reg(w-2 DOWNTO 0)`. -/
def Core.collision (core : Core w) : Bool :=
  decide (wrapAddress core.status.wrAddrBeginReg ≤ core.writer.wrAddrI)

/-- `trigger_pointer_reg + post_trigger_reg = wr_addr_i`. -/
def Core.atStopAddress (core : Core w) : Bool :=
  core.status.triggerPointerReg + core.status.postTriggerReg == core.writer.wrAddrI

/-- `rd_addr_i >= rd_addr_end_reg`. -/
def Core.readEnd (core : Core w) : Bool :=
  decide (core.status.rdAddrEndReg ≤ core.reader.rdAddrI)

/-- Start, or wrap around. -/
def statusStart (core : Core w) (edge : Edge w) (next : Status w) : Status w :=
  if edge.wrStartPulse then
    { next with
      wrAddrBeginReg := edge.wrAddrBegin
      wrWrapAroundReg := edge.wrWrapAround
      wrWriting := true
      wrStopping := false
      wrWrappedI := false
      rdReading := false }
  else if core.collision then
    let next :=
      if core.status.wrWrapAroundReg = false then
        { next with wrWriting := false, wrStopping := false }
      else next
    { next with wrWrappedI := true }
  else next

/-- Stop. -/
def statusStop (core : Core w) (edge : Edge w) (next : Status w) : Status w :=
  if edge.wrStopPulse then
    let next := { next with postTriggerReg := edge.postTrigger }
    if core.status.wrWriting then
      { next with triggerPointerReg := core.writer.wrAddrI, wrStopping := true }
    else next
  else next

/-- Stopping condition. -/
def statusStopping (core : Core w) (next : Status w) : Status w :=
  if core.status.wrStopping then
    if core.atStopAddress then { next with wrWriting := false, wrStopping := false } else next
  else next

/-- Reading. -/
def statusReading (core : Core w) (edge : Edge w) (next : Status w) : Status w :=
  if edge.rdStartPulse then
    { next with
      wrWriting := false
      wrStopping := false
      rdReading := true
      rdAddrBeginReg := edge.rdAddrBegin
      rdAddrEndReg := edge.rdAddrEnd }
  else if core.readEnd then { next with rdReading := false }
  else next

def statusProcess (core : Core w) (edge : Edge w) : Status w :=
  statusReading core edge
    (statusStopping core (statusStop core edge (statusStart core edge core.status)))

/-! ### The write process -/

/-- The `CASE write_state` statement, over the defaults. -/
def writeFsm (burst : Nat) (core : Core w) (edge : Edge w) : Writer w :=
  let old := core.writer
  let next : Writer w :=
    { wrAddrI := old.wrAddrI, writeState := .W0, indataFifoRden := false, wrWdfWren := false,
      wrWdfEnd := false, wrAppEn := false }
  match old.writeState with
  | .W0 =>
    if edge.indataFifoEmpty = false ∧ core.status.wrWriting = true then
      { next with
        indataFifoRden := true, wrWdfWren := true, wrWdfEnd := true, writeState := .W1 }
    else next
  | .W1 =>
    let next := { next with writeState := .W1, wrWdfWren := true, wrWdfEnd := true }
    if edge.appWdfRdy then
      { next with wrWdfWren := false, wrWdfEnd := false, wrAppEn := true, writeState := .W2 }
    else next
  | .W2 =>
    let next := { next with wrAppEn := true, writeState := .W2 }
    let next :=
      if edge.appRdy then
        { next with wrAppEn := false, wrAddrI := advance burst old.wrAddrI, writeState := .W0 }
      else next
    if core.status.wrWriting = false then { next with writeState := .W0 } else next
  | _ => { next with writeState := .W0 }

def writeProcess (burst : Nat) (core : Core w) (edge : Edge w) : Writer w :=
  let next := writeFsm burst core edge
  if edge.wrStartPulse then { next with wrAddrI := edge.wrAddrBegin, writeState := .W0 } else next

/-! ### The read process -/

/-- `rd_readable`. -/
def Ports.rdReadable (ports : Ports w) : Bool := ports.appRdy && !ports.outdataFifoFull

/-- The `CASE read_state` statement, over the defaults. -/
def readFsm (burst : Nat) (core : Core w) (edge : Edge w) : Reader w :=
  let old := core.reader
  let next : Reader w := { rdAddrI := old.rdAddrI, rdAppEn := false, readState := .R0 }
  match old.readState with
  | .R0 => next
  | .R1 =>
    let next := { next with readState := .R1 }
    if edge.rdReadable then { next with rdAppEn := true, readState := .R2 } else next
  | .R2 =>
    let next := { next with readState := .R2, rdAppEn := true }
    if edge.appRdy then { next with rdAppEn := false, readState := .R3 } else next
  | .R3 =>
    let next := { next with readState := .R3 }
    if edge.appRdDataValid then
      { next with rdAddrI := advance burst old.rdAddrI, readState := .R1 }
    else next
  | _ => { next with readState := .R0 }

/-- The higher priority conditions after it win. -/
def readProcess (burst : Nat) (core : Core w) (edge : Edge w) : Reader w :=
  let next :=
    if core.status.rdReading = false then { rdAddrI := 0, rdAppEn := false, readState := .R0 }
    else readFsm burst core edge
  if edge.rdStartPulse then { next with rdAddrI := edge.rdAddrBegin, readState := .R1 } else next

/-- One rising edge of `CLK`. -/
def Core.clock (burst : Nat) (core : Core w) (edge : Edge w) : Core w :=
  if edge.inReset then core.asyncReset
  else
    { status := statusProcess core edge
      writer := writeProcess burst core edge
      reader := readProcess burst core edge }

/-! ### Outputs -/

/-- `DDR3_CMD_WRITE` (`"000"`) and `DDR3_CMD_READ` (`"001"`). -/
inductive Command where
  | write | read
deriving DecidableEq, Repr

namespace Core

def appAddr (core : Core w) : BitVec w :=
  if core.status.wrWriting then memoryAddress core.writer.wrAddrI
  else memoryAddress core.reader.rdAddrI

def appCmd (core : Core w) : Command := if core.status.wrWriting then .write else .read

def appEn (core : Core w) : Bool := core.writer.wrAppEn || core.reader.rdAppEn

def wrBusy (core : Core w) : Bool := core.status.wrWriting

def wrPointer (core : Core w) : BitVec w := core.writer.wrAddrI

def wrWrapped (core : Core w) : Bool := core.status.wrWrappedI

def triggerPointer (core : Core w) : BitVec w := core.status.triggerPointerReg

def rdBusy (core : Core w) : Bool := core.status.rdReading

/-- `outdata_fifo_wren`. -/
def outdataFifoWren (core : Core w) (ports : Ports w) : Bool :=
  ports.appRdDataValid && core.status.rdReading

/-- A command is accepted at this edge. -/
def commandAccepted (core : Core w) (ports : Ports w) : Bool := core.appEn && ports.appRdy

/-- A data beat is accepted at this edge. -/
def beatAccepted (core : Core w) (ports : Ports w) : Bool :=
  core.writer.wrWdfWren && ports.appWdfRdy

/-- A WRITE command is accepted at this edge. -/
def writeAccepted (core : Core w) (ports : Ports w) : Bool :=
  core.commandAccepted ports && core.appCmd == .write

/-- A READ command is accepted at this edge. -/
def readAccepted (core : Core w) (ports : Ports w) : Bool :=
  core.commandAccepted ports && core.appCmd == .read

end Core

/-! ### The entity -/

/-- `sdram_buffer_fifo` without its FIFOs: the processes and the three pulse converters, all
on `CLK`. -/
structure Buffer (w : Nat) where
  core : Core w
  rdStartConverter : Pulse2pulse
  wrStartConverter : Pulse2pulse
  wrStopConverter : Pulse2pulse
deriving DecidableEq, Repr

namespace Buffer

def powerOn : Buffer w := ⟨Core.powerOn, .reset, .reset, .reset⟩

/-- The pulses the converters drive at an edge, beside the ports. -/
def edge (buffer : Buffer w) (ports : Ports w) : Edge w :=
  { ports with
    rdStartPulse := (buffer.rdStartConverter.settle ports.reset).outProc.pulseout
    wrStartPulse := (buffer.wrStartConverter.settle ports.reset).outProc.pulseout
    wrStopPulse := (buffer.wrStopConverter.settle ports.reset).outProc.pulseout }

/-- One rising edge of `CLK`. -/
def clock (burst : Nat) (buffer : Buffer w) (ports : Ports w) : Buffer w where
  core := buffer.core.clock burst (buffer.edge ports)
  rdStartConverter := buffer.rdStartConverter.clock true true ports.reset ports.rdStart
  wrStartConverter := buffer.wrStartConverter.clock true true ports.reset ports.wrStart
  wrStopConverter := buffer.wrStopConverter.clock true true ports.reset ports.wrStop

/-- The edges the three processes see during a run of the entity. -/
def edges (burst : Nat) (buffer : Buffer w) (inputs : List (Ports w)) : List (Edge w) :=
  Clocked.feed (clock burst) edge buffer inputs

/-- The processes run on the edges the converters deliver. -/
theorem run_core (burst : Nat) (buffer : Buffer w) (inputs : List (Ports w)) :
    (Clocked.run (clock burst) buffer inputs).core =
      Clocked.run (Core.clock burst) buffer.core (buffer.edges burst inputs) :=
  Clocked.run_feed (fun _ _ => rfl) buffer inputs

end Buffer

end K71GbE.Sdram
