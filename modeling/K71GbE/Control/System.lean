/-
This file closes `control_interface` with what stands around it: the command FIFO
and the data FIFO it reads from, both first-word-fall-through, and a synchronous
memory that writes and reads at the clock edge.

The words of the two FIFOs are sequences, and words arrive at arbitrary edges.
What a port shows while a FIFO is empty, and what the memory shows after a write,
is arbitrary. The full flag of the output FIFO is an input here, so that every
pattern of it is a schedule. The system starts from reset, and `RESET` stays low.
-/

import K71GbE.Clocked.Fifo
import K71GbE.Control.Interpreter

namespace K71GbE.Control

open Clocked

/-- The words the command FIFO and the data FIFO deliver, in order. -/
structure Traffic where
  commands : Nat → BitVec 32
  data : Nat → BitVec 32

/-- What the surroundings decide at one clock edge. -/
structure Tick where
  cmdArriving : Nat
  cmdJunk : BitVec 36
  statusReg : BitVec 176
  dataArriving : Nat
  dataJunk : BitVec 32
  memJunk : BitVec 32
  sFifoFull : Bool

/-- Nothing arrives, the inputs are low and the output FIFO has room. -/
def Tick.quiet : Tick := ⟨0, 0, 0, 0, 0, 0, false⟩

/-- `control_interface`, its two input FIFOs and the memory. -/
structure System where
  control : ControlInterface
  cmdFifo : Fwft
  dataFifo : Fwft
  memory : BitVec 32 → BitVec 32
  memDout : BitVec 32

namespace System

/-- After reset, with nothing in the FIFOs. -/
def powerOn (memory : BitVec 32 → BitVec 32) : System :=
  ⟨.powerOn, .new, .new, memory, 0⟩

variable (traffic : Traffic)

/-- `CMD_FIFO_Q`. -/
def cmdFifoQ (system : System) (tick : Tick) : BitVec 36 :=
  system.cmdFifo.dout (fun k => 0#4 ++ traffic.commands k) tick.cmdJunk

/-- `DATA_FIFO_Q`. -/
def dataFifoQ (system : System) (tick : Tick) : BitVec 32 :=
  system.dataFifo.dout traffic.data tick.dataJunk

/-- The levels at the ports of `control_interface`. -/
def ports (system : System) (tick : Tick) : Ports where
  reset := false
  cmdFifoQ := system.cmdFifoQ traffic tick
  cmdFifoEmpty := system.cmdFifo.empty
  statusReg := tick.statusReg
  memDout := system.memDout
  dataFifoQ := system.dataFifoQ traffic tick
  dataFifoEmpty := system.dataFifo.empty
  sFifoFull := tick.sFifoFull

/-- The memory after an edge. -/
def written (system : System) : BitVec 32 → BitVec 32 :=
  if system.control.sWea then
    Function.update system.memory system.control.sAddrA system.control.sDinA
  else system.memory

/-- One rising edge of `CLK`. -/
def clock (system : System) (tick : Tick) : System where
  control := system.control.clock (system.ports traffic tick)
  cmdFifo := system.cmdFifo.clock system.control.cmdFifoRdreq tick.cmdArriving
  dataFifo := system.dataFifo.clock
    (system.control.dataFifoRdreq (system.ports traffic tick)) tick.dataArriving
  memory := system.written
  memDout :=
    if system.control.sWea then tick.memJunk else system.memory system.control.sAddrA

/-! ### What an observer sees -/

/-- The position of the word popped from the command FIFO at this edge. -/
def popped (system : System) (_ : Tick) : List Nat :=
  if system.cmdFifo.pops system.control.cmdFifoRdreq then [system.cmdFifo.popped] else []

/-- The word popped at this edge, and the status inputs at it. -/
def received (system : System) (tick : Tick) : List Given :=
  (system.popped tick).map fun k => ⟨traffic.commands k, tick.statusReg⟩

/-- The write port of the output FIFO at this edge. -/
def offered (system : System) (tick : Tick) : Option (BitVec 36) :=
  let ports := system.ports traffic tick
  if system.control.sFifoWren ports then some (system.control.sFifoD ports) else none

/-- The word the output FIFO stores at this edge. -/
def stored (system : System) (tick : Tick) : List (BitVec 36) :=
  if tick.sFifoFull then [] else (system.offered traffic tick).toList

/-- A READ of address 20 meets a full output FIFO. -/
def stalls (system : System) (tick : Tick) : Bool :=
  system.control.cmdState == .interpretCmd &&
    (readsMemory (system.cmdFifoQ traffic tick) && tick.sFifoFull)

/-- A READ of address 20 is interpreted while the count register is 0. -/
def readsNothing (system : System) (tick : Tick) : Bool :=
  system.control.cmdState == .interpretCmd &&
    (readsMemory (system.cmdFifoQ traffic tick) && system.control.sMemioCnt == 0)

/-- `control_interface` outside reset. -/
theorem clock_control (system : System) (tick : Tick) :
    (system.clock traffic tick).control =
      { system.control.cmdIF (system.ports traffic tick) with
        sDinHigh := dataOf (system.cmdFifoQ traffic tick) } := rfl

end System

end K71GbE.Control
