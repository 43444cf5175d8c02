/-
This file models `ten_gig_eth_rx_parser`: the parser of received frames and the
process that raises their commands.

One clock is a falling edge and the rising edge after it. The stream changes after
rising edges, so both edges meet the same beat. The FIFO of the commands is a
generated core; its full flag is an input. `TKEEP` is not used by the source.
-/

import K71GbE.Clocked.Machine
import K71GbE.Clocked.Parts

namespace K71GbE.TenGigEth

open Clocked

/-- `SRC_MAC`, `SRC_IP` and `SRC_PORT`, which are constants. -/
structure Config where
  srcMac : BitVec 48
  srcIp : BitVec 32
  srcPort : BitVec 16
deriving DecidableEq, Repr

/-- The states of both machines. -/
inductive ParserState where
  | s0 | s1 | s2 | s3 | s4 | s5 | s6
deriving DecidableEq, Repr

/-- The registers for the fields of a frame. -/
structure Fields where
  dstMacReg : BitVec 48
  dstIpReg : BitVec 32
  dstPortReg : BitVec 16
  srcMacReg : BitVec 48
  srcIpReg : BitVec 32
  srcPortReg : BitVec 16
  pktTypeReg : BitVec 16
  opcodeReg : BitVec 16
  protocolReg : BitVec 8
  udpCmdReg : BitVec 32
deriving DecidableEq, Repr

/-- `(OTHERS => '0')` in every register. -/
def Fields.zero : Fields := ⟨0, 0, 0, 0, 0, 0, 0, 0, 0, 0⟩

structure RxParser where
  tvalidPrev : Bool
  tstart : Bool
  tlastI : Bool
  parserState : ParserState
  fields : Fields
  cmdState : ParserState
  cmdFifoDin : BitVec 128
  cmdFifoWren : Bool
deriving DecidableEq, Repr

/-- The inputs of one clock. -/
structure RxInput where
  tdata : BitVec 64
  tvalid : Bool
  tlast : Bool
  cmdFifoFull : Bool
deriving DecidableEq, Repr

/-- `RX_AXIS_FIFO_TREADY <= NOT cmd_fifo_full`. -/
def RxInput.tready (input : RxInput) : Bool := !input.cmdFifoFull

def pktTypeArp : BitVec 16 := 0x0806
def pktTypeIp : BitVec 16 := 0x0800
def opcodeReq : BitVec 16 := 0x0001
def protocolUdp : BitVec 8 := 0x11

/-! ### The parser -/

/-- `TDATA(8*i+7 DOWNTO 8*i) & TDATA(8*i+15 DOWNTO 8*i+8)`. -/
def two (tdata : BitVec 64) (i : Nat) : BitVec 16 := part 8 tdata i ++ part 8 tdata (i + 1)

/-- Four bytes from byte `i` on, the first one most significant. -/
def four (tdata : BitVec 64) (i : Nat) : BitVec 32 := two tdata i ++ two tdata (i + 2)

/-- Six bytes from byte `i` on, the first one most significant. -/
def six (tdata : BitVec 64) (i : Nat) : BitVec 48 := two tdata i ++ four tdata (i + 2)

/-- `parser_sm`: the state and the registers after a rising edge. -/
def parserSm (tstart : Bool) (input : RxInput) (state : ParserState) (fields : Fields) :
    ParserState × Fields :=
  let tdata := input.tdata
  match state with
  | .s0 =>
    if tstart then
      (.s1, { fields with
        dstMacReg := six tdata 0
        srcMacReg := setPart fields.srcMacReg 2 (two tdata 6) })
    else (.s0, fields)
  | .s1 =>
    if input.tvalid then
      (.s2, { fields with
        srcMacReg := setPart fields.srcMacReg 0 (four tdata 0)
        pktTypeReg := two tdata 4 })
    else (.s1, fields)
  | .s2 =>
    if input.tvalid then
      (.s3, { fields with opcodeReg := two tdata 4, protocolReg := part 8 tdata 7 })
    else (.s2, fields)
  | .s3 =>
    if input.tvalid then
      if fields.pktTypeReg = pktTypeArp then (.s4, { fields with srcIpReg := four tdata 4 })
      else
        (.s4, { fields with
          srcIpReg := four tdata 2
          dstIpReg := setPart fields.dstIpReg 1 (two tdata 6) })
    else (.s3, fields)
  | .s4 =>
    if input.tvalid then
      if fields.pktTypeReg = pktTypeArp then
        (.s5, { fields with dstIpReg := setPart fields.dstIpReg 1 (two tdata 6) })
      else
        (.s5, { fields with
          dstIpReg := setPart fields.dstIpReg 0 (two tdata 0)
          srcPortReg := two tdata 2
          dstPortReg := two tdata 4 })
    else (.s4, fields)
  | .s5 =>
    if input.tvalid then
      (if input.tlast then .s0 else .s6,
        if fields.pktTypeReg = pktTypeArp then
          { fields with dstIpReg := setPart fields.dstIpReg 0 (two tdata 0) }
        else { fields with udpCmdReg := tdata.extractLsb' 16 32 })
    else (.s5, fields)
  | .s6 => (if input.tlast then .s0 else .s6, fields)

/-! ### The commands -/

/-- The command that the registers amount to, in state `S1` of the command machine. -/
def command (config : Config) (fields : Fields) : Option (BitVec 128) :=
  if fields.pktTypeReg = pktTypeArp then
    if fields.dstIpReg = config.srcIp ∧ fields.opcodeReg = opcodeReq then
      some (fields.srcMacReg ++ fields.srcIpReg ++ fields.srcPortReg ++ 0x00000000#32)
    else none
  else if fields.pktTypeReg = pktTypeIp ∧ fields.protocolReg = protocolUdp ∧
      fields.dstMacReg = config.srcMac ∧ fields.dstIpReg = config.srcIp ∧
      fields.dstPortReg = config.srcPort then
    some (fields.srcMacReg ++ fields.srcIpReg ++ fields.srcPortReg ++ fields.udpCmdReg)
  else none

/-- The process of the command machine. -/
def commandProcess (config : Config) (rx : RxParser) : RxParser :=
  match rx.cmdState with
  | .s0 => { rx with cmdFifoWren := false, cmdState := if rx.tlastI then .s1 else .s0 }
  | .s1 =>
    match command config rx.fields with
    | some din => { rx with cmdFifoDin := din, cmdFifoWren := true, cmdState := .s0 }
    | none => { rx with cmdFifoWren := false, cmdState := .s0 }
  | _ => { rx with cmdFifoWren := false, cmdState := .s0 }

namespace RxParser

/-- A falling edge. -/
def falling (config : Config) (rx : RxParser) (input : RxInput) : RxParser :=
  { commandProcess config rx with
    tvalidPrev := input.tvalid
    tstart := input.tvalid && !rx.tvalidPrev }

/-- A rising edge. -/
def rising (rx : RxParser) (input : RxInput) : RxParser :=
  let after := parserSm rx.tstart input rx.parserState rx.fields
  { rx with tlastI := input.tlast, parserState := after.1, fields := after.2 }

/-- One clock. -/
def clock (config : Config) (rx : RxParser) (input : RxInput) : RxParser :=
  (rx.falling config input).rising input

/-- The word that the FIFO takes at the rising edge. Written while it is full, a word is lost. -/
def pushed (config : Config) (rx : RxParser) (input : RxInput) : List (BitVec 128) :=
  let before := rx.falling config input
  if before.cmdFifoWren && !input.cmdFifoFull then [before.cmdFifoDin] else []

/-- `RESET`. The sampled `TVALID` and `TLAST`, and the word for the FIFO, are left as they are. -/
def reset (rx : RxParser) : RxParser :=
  { rx with fields := .zero, parserState := .s0, cmdState := .s0 }

/-! ### What one clock does -/

variable (config : Config) (rx : RxParser) (input : RxInput)

@[simp] theorem clock_tvalidPrev : (rx.clock config input).tvalidPrev = input.tvalid := rfl

@[simp] theorem clock_tlastI : (rx.clock config input).tlastI = input.tlast := rfl

theorem commandProcess_fields : (commandProcess config rx).fields = rx.fields := by
  unfold commandProcess
  split
  · rfl
  · split <;> rfl
  · rfl

theorem commandProcess_parserState :
    (commandProcess config rx).parserState = rx.parserState := by
  unfold commandProcess
  split
  · rfl
  · split <;> rfl
  · rfl

/-- The parser moves by `parser_sm`, with the start of a frame told by the rise of `TVALID`. -/
theorem clock_parserSm :
    ((rx.clock config input).parserState, (rx.clock config input).fields) =
      parserSm (input.tvalid && !rx.tvalidPrev) input rx.parserState rx.fields := by
  show parserSm (input.tvalid && !rx.tvalidPrev) input (commandProcess config rx).parserState
    (commandProcess config rx).fields = _
  rw [commandProcess_fields, commandProcess_parserState]

/-- The state of the command machine after one clock. -/
theorem clock_cmdState :
    (rx.clock config input).cmdState = if rx.cmdState = .s0 ∧ rx.tlastI then .s1 else .s0 := by
  show (commandProcess config rx).cmdState = _
  unfold commandProcess
  cases state : rx.cmdState with
  | s0 => cases rx.tlastI <;> rfl
  | s1 =>
    dsimp only
    split <;> rfl
  | _ => rfl

/-- A word is pushed in state `S1`, when the registers amount to a command. -/
theorem pushed_eq :
    rx.pushed config input =
      if rx.cmdState = .s1 ∧ input.cmdFifoFull = false then (command config rx.fields).toList
      else [] := by
  have strobe : rx.pushed config input =
      if (commandProcess config rx).cmdFifoWren && !input.cmdFifoFull then
        [(commandProcess config rx).cmdFifoDin] else [] := rfl
  rw [strobe, commandProcess]
  cases state : rx.cmdState with
  | s1 =>
    dsimp only
    cases command config rx.fields <;> cases input.cmdFifoFull <;> rfl
  | _ => rfl

end RxParser

end K71GbE.TenGigEth
