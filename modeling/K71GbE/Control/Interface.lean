/-
This file models `control_interface`: the command process, the registered high
half of the memory input, and the multiplexer in front of the output FIFO.

An update of `next` is a signal assignment, a later one wins, and the right-hand
sides read the registers from before the edge, which `old` holds. The variables
of the process are updated in place; their declared ranges, which a
synthesised counter does not check, are not part of the step. Signals without an
initial value in the source power up low.
-/

import K71GbE.Clocked.Parts

namespace K71GbE.Control

open Clocked

/-! ### Command words -/

/-- `CMD_FIFO_Q(31)`: `READ/NOT_WRITE`. -/
def readNotWrite {n : Nat} (q : BitVec n) : Bool := q.getLsbD 31

/-- `address_i`: `CMD_FIFO_Q(27 DOWNTO 16)`. -/
def addressI {n : Nat} (q : BitVec n) : Nat := (q.extractLsb' 16 12).toNat

/-- `CMD_FIFO_Q(15 DOWNTO 0)`. -/
def dataOf {n : Nat} (q : BitVec n) : BitVec 16 := q.extractLsb' 0 16

/-- The choices of the two `CASE address_i` statements. -/
inductive Target where
  | configReg (i : Fin 32)
  | statusReg (i : Fin 11)
  | pulseReg
  | memioCnt
  | addrLow
  | addrHigh
  | memLow
  | memHigh
  | dataFifo
  | others
deriving DecidableEq, Repr

/-- The choice an address selects. -/
def target (address : Nat) : Target :=
  if config : 32 ≤ address ∧ address ≤ 63 then .configReg ⟨address - 32, by omega⟩
  else if status : address ≤ 10 then .statusReg ⟨address, by omega⟩
  else
    match address with
    | 11 => .pulseReg
    | 16 => .memioCnt
    | 17 => .addrLow
    | 18 => .addrHigh
    | 19 => .memLow
    | 20 => .memHigh
    | 25 => .dataFifo
    | _ => .others

/-- A READ of address 20: `count` words of the memory. -/
def readsMemory {n : Nat} (q : BitVec n) : Bool :=
  readNotWrite q && target (addressI q) == .memHigh

theorem readsMemory_of {n : Nat} {q : BitVec n} (read : readNotWrite q = true)
    (memory : target (addressI q) = .memHigh) : readsMemory q = true := by
  rw [readsMemory, read, memory]
  rfl

/-- The upper four bits of a word of the command FIFO are not read. -/
@[simp] theorem readNotWrite_append (unused : BitVec 4) (word : BitVec 32) :
    readNotWrite (unused ++ word) = readNotWrite word := by
  rw [readNotWrite, BitVec.getLsbD_append]
  rfl

@[simp] theorem addressI_append (unused : BitVec 4) (word : BitVec 32) :
    addressI (unused ++ word) = addressI word := by
  have same : (unused ++ word).extractLsb' 16 12 = word.extractLsb' 16 12 :=
    BitVec.extractLsb'_append_eq_of_add_le (by decide)
  rw [addressI, addressI, same]

@[simp] theorem dataOf_append (unused : BitVec 4) (word : BitVec 32) :
    dataOf (unused ++ word) = dataOf word := by
  rw [dataOf, dataOf]
  exact BitVec.extractLsb'_append_eq_of_add_le (by decide)

@[simp] theorem readsMemory_append (unused : BitVec 4) (word : BitVec 32) :
    readsMemory (unused ++ word) = readsMemory word := by
  rw [readsMemory, readsMemory, readNotWrite_append, addressI_append]

/-! ### Ports and registers -/

/-- The levels at the input ports at one rising edge of `CLK`, with the flag of the output FIFO
inside the entity. -/
structure Ports where
  reset : Bool
  cmdFifoQ : BitVec 36
  cmdFifoEmpty : Bool
  statusReg : BitVec 176
  memDout : BitVec 32
  dataFifoQ : BitVec 32
  dataFifoEmpty : Bool
  sFifoFull : Bool
deriving DecidableEq, Repr

/-- `cmdState_t`. -/
inductive CmdState where
  | init | waitCmd | getCmd | interpretCmd | memAdv | memRdCnt | pulseDelay | fifoAdv
deriving DecidableEq, Repr

/-- `SEL_REG`, `SEL_MEM` and `SEL_FIFO`. -/
inductive Selection where
  | selReg | selMem | selFifo
deriving DecidableEq, Repr

/-- The registers of the entity and the variables of the command process. -/
structure ControlInterface where
  cmdState : CmdState
  cmdFifoRdreq : Bool
  sConfigReg : BitVec 512
  sPulseReg : BitVec 16
  sRegOut : BitVec 16
  bMemNotReg : Selection
  sFifoWrreq : Bool
  sWea : Bool
  sAddrA : BitVec 32
  sDinReg : BitVec 16
  sDinHigh : BitVec 16
  sMemioCnt : BitVec 16
  counterV : Int
  counterFIFO : Int
deriving DecidableEq, Repr

namespace ControlInterface

/-- The reset branch. The output strobe, the output register, the registered half of the memory
input and the data FIFO counter are not in it. -/
def asyncReset (old : ControlInterface) : ControlInterface :=
  { old with
    counterV := 0
    cmdState := .init
    cmdFifoRdreq := false
    sConfigReg := 0
    sPulseReg := 0
    sDinReg := 0
    sMemioCnt := 0
    sWea := false
    sAddrA := 0
    bMemNotReg := .selReg }

/-- The state after power-on and reset. -/
def powerOn : ControlInterface :=
  asyncReset ⟨.init, false, 0, 0, 0, .selReg, false, false, 0, 0, 0, 0, 0, 0⟩

/-! ### The command process -/

/-- The defaults before the `CASE cmdState` statement. -/
def defaults (old : ControlInterface) : ControlInterface :=
  { old with cmdFifoRdreq := false, sFifoWrreq := false, sWea := false, sRegOut := 0 }

/-- A READ transaction. -/
def interpretRead (old : ControlInterface) (ports : Ports) (next : ControlInterface) :
    ControlInterface :=
  match target (addressI ports.cmdFifoQ) with
  | .configReg i =>
    { next with sRegOut := part 16 old.sConfigReg i, sFifoWrreq := true, cmdState := .waitCmd }
  | .statusReg i =>
    { next with sRegOut := part 16 ports.statusReg i, sFifoWrreq := true, cmdState := .waitCmd }
  | .memioCnt =>
    { next with sRegOut := old.sMemioCnt, sFifoWrreq := true, cmdState := .waitCmd }
  | .addrLow =>
    { next with sRegOut := part 16 old.sAddrA 0, sFifoWrreq := true, cmdState := .waitCmd }
  | .addrHigh =>
    { next with sRegOut := part 16 old.sAddrA 1, sFifoWrreq := true, cmdState := .waitCmd }
  | .memHigh =>
    let next := { next with counterV := old.sMemioCnt.toNat, bMemNotReg := .selMem }
    if ports.sFifoFull = false then
      { next with sFifoWrreq := true, sAddrA := old.sAddrA + 1, cmdState := .memRdCnt }
    else next
  | _ =>
    { next with sRegOut := BitVec.allOnes 16, sFifoWrreq := true, cmdState := .waitCmd }

/-- A WRITE transaction. -/
def interpretWrite (old : ControlInterface) (ports : Ports) (next : ControlInterface) :
    ControlInterface :=
  let data := dataOf ports.cmdFifoQ
  match target (addressI ports.cmdFifoQ) with
  | .configReg i =>
    { next with sConfigReg := setPart old.sConfigReg i data, cmdState := .waitCmd }
  | .pulseReg => { next with sPulseReg := data, counterV := 2, cmdState := .pulseDelay }
  | .memioCnt => { next with sMemioCnt := data, cmdState := .waitCmd }
  | .addrLow => { next with sAddrA := setPart old.sAddrA 0 data, cmdState := .waitCmd }
  | .addrHigh => { next with sAddrA := setPart old.sAddrA 1 data, cmdState := .waitCmd }
  | .memLow => { next with sDinReg := data, cmdState := .waitCmd }
  | .memHigh => { next with sWea := true, cmdState := .memAdv }
  | .dataFifo =>
    { next with counterFIFO := data.toNat, bMemNotReg := .selFifo, cmdState := .fifoAdv }
  | _ => { next with cmdState := .waitCmd }

/-- The `CASE cmdState` statement, over the defaults. -/
def cmdIF (old : ControlInterface) (ports : Ports) : ControlInterface :=
  let next := old.defaults
  match old.cmdState with
  | .init =>
    { next with
      sConfigReg := 0, sPulseReg := 0, sAddrA := 0, sMemioCnt := 1, cmdState := .waitCmd }
  | .waitCmd =>
    let next := { next with bMemNotReg := .selReg, sPulseReg := 0 }
    if ports.cmdFifoEmpty = false then
      { next with cmdFifoRdreq := true, cmdState := .interpretCmd }
    else next
  | .interpretCmd =>
    if readNotWrite ports.cmdFifoQ then interpretRead old ports next
    else interpretWrite old ports next
  | .memAdv => { next with sAddrA := old.sAddrA + 1, cmdState := .waitCmd }
  | .memRdCnt =>
    let next : ControlInterface := { next with counterV := next.counterV - 1 }
    if next.counterV = 0 then { next with cmdState := .waitCmd }
    else if ports.sFifoFull = false then
      { next with sFifoWrreq := true, sAddrA := old.sAddrA + 1, cmdState := .memRdCnt }
    else { next with counterV := next.counterV + 1, cmdState := .memRdCnt }
  | .pulseDelay =>
    let next : ControlInterface := { next with counterV := next.counterV - 1 }
    if next.counterV = 0 then { next with cmdState := .waitCmd } else next
  | .fifoAdv =>
    let next : ControlInterface := { next with bMemNotReg := .selFifo, cmdState := .fifoAdv }
    if ports.dataFifoEmpty = false ∧ ports.sFifoFull = false then
      if next.counterFIFO = 0 then { next with bMemNotReg := .selReg, cmdState := .waitCmd }
      else { next with counterFIFO := next.counterFIFO - 1 }
    else next
  | _ => { next with cmdState := .waitCmd }

/-- One rising edge of `CLK`. The high half of the memory input is registered by a process of its
own, which has no reset. -/
def clock (old : ControlInterface) (ports : Ports) : ControlInterface :=
  let next := if ports.reset then old.asyncReset else old.cmdIF ports
  { next with sDinHigh := dataOf ports.cmdFifoQ }

/-! ### Outputs -/

/-- `sDinA`. -/
def sDinA (state : ControlInterface) : BitVec 32 := state.sDinHigh ++ state.sDinReg

/-- `sFifoD`. -/
def sFifoD (state : ControlInterface) (ports : Ports) : BitVec 36 :=
  0#4 ++
    (match state.bMemNotReg with
    | .selMem => ports.memDout
    | .selFifo => ports.dataFifoQ
    | .selReg => 0#16 ++ state.sRegOut)

/-- `sFifoWren`. -/
def sFifoWren (state : ControlInterface) (ports : Ports) : Bool :=
  match state.bMemNotReg with
  | .selFifo => !ports.dataFifoEmpty
  | _ => state.sFifoWrreq

/-- `DATA_FIFO_RDREQ`. -/
def dataFifoRdreq (state : ControlInterface) (ports : Ports) : Bool :=
  match state.bMemNotReg with
  | .selFifo => !ports.sFifoFull
  | _ => false

end ControlInterface

end K71GbE.Control
