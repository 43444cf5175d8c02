/-
This file models `ten_gig_eth_mac_0_axi_fifo`, the frame store on either side of
the MAC, with its RAM and the conversions of `xgmac_fifo_pack`.

The two sides have clocks of their own. A run is a sequence of edges, of one clock
or of both at once; at a common edge each side sees the other as it was before,
but the pointer in Gray code may be sampled while it changes, every bit for itself.
A run begins when the two resets have ended.
-/

import K71GbE.Clocked.GrayCode
import K71GbE.Clocked.Parts
import K71GbE.TenGigEth.PacketGen

namespace K71GbE.TenGigEth

open Clocked

/-! ### Gray codes -/

section Gray

variable {w : Nat}

/-- `bin_to_gray`. -/
def binToGray (bin : BitVec w) : BitVec w :=
  assignBits fun i _ =>
    if i + 1 = w then bin.getLsbD i else bin.getLsbD (i + 1) ^^ bin.getLsbD i

/-- `gray_to_bin`. -/
def grayToBin (gray : BitVec w) : BitVec w :=
  assignBits fun i binary =>
    if i + 1 = w then gray.getLsbD i else binary.getLsbD (i + 1) ^^ gray.getLsbD i

theorem binToGray_eq (bin : BitVec w) : binToGray bin = Gray.encode bin := by
  refine assignBits_eq fun i inside _ _ => ?_
  rw [Gray.getLsbD_encode]
  split
  · rw [BitVec.getLsbD_of_ge bin (i + 1) (by omega), Bool.xor_false]
  · exact Bool.xor_comm _ _

theorem grayToBin_encode (value : BitVec w) : grayToBin (Gray.encode value) = value := by
  refine assignBits_eq fun i inside binary higher => ?_
  rw [Gray.getLsbD_encode]
  split
  · rw [BitVec.getLsbD_of_ge value (i + 1) (by omega), Bool.xor_false]
  · rw [higher (i + 1) (Nat.lt_succ_self i) (by omega), Bool.xor_comm (value.getLsbD i),
      ← Bool.xor_assoc, Bool.xor_self, Bool.false_xor]

end Gray

/-! ### The words in the RAM -/

/-- A word of the RAM: 64 data bits and the four parity bits. -/
structure RamWord where
  data : BitVec 64
  ctrl : BitVec 4
deriving DecidableEq, Repr

/-- The remainder that `p_wr_pipe` makes of `TKEEP`. -/
def remainder (tkeep : BitVec 8) : BitVec 3 :=
  BitVec.ofBool (tkeep.getLsbD 4) ++
    if tkeep = 0b00000001 ∨ tkeep = 0b00011111 then (0b00 : BitVec 2)
    else if tkeep = 0b00000011 ∨ tkeep = 0b00111111 then 0b01
    else if tkeep = 0b00000111 ∨ tkeep = 0b01111111 then 0b10
    else 0b11

/-- `TKEEP` as `p_rd_pipe` makes it of the remainder. -/
def tkeepOf (remainder : BitVec 3) : BitVec 8 :=
  match remainder.toNat with
  | 0 => 0b00000001
  | 1 => 0b00000011
  | 2 => 0b00000111
  | 3 => 0b00001111
  | 4 => 0b00011111
  | 5 => 0b00111111
  | 6 => 0b01111111
  | 7 => 0b11111111
  | _ => 0b00000000

/-- The word that a beat becomes. -/
def TxBeat.ramWord (beat : TxBeat) : RamWord :=
  ⟨beat.tdata, BitVec.ofBool beat.tlast ++ remainder beat.tkeep⟩

/-! ### The write side -/

/-- The inputs of the write side. -/
structure WrAxis where
  tdata : BitVec 64
  tkeep : BitVec 8
  tvalid : Bool
  tlast : Bool
  tuser : Bool
deriving DecidableEq, Repr

def WrAxis.beat (axis : WrAxis) : TxBeat := ⟨axis.tdata, axis.tkeep, axis.tlast⟩

/-- The registers of the write side. -/
structure WrSide (w : Nat) where
  wrAddr : BitVec w
  wrAddrLast : BitVec w
  wrRdAddrGray : BitVec w
  wrRdAddrGrayD1 : BitVec w
  wrRdAddrGrayD2 : BitVec w
  wrRdAddrGrayD3 : BitVec w
  wrRdAddrGrayD4 : BitVec w
  wrFifoFull : Bool
  eofBeforeFifoFullSeen : Bool
  wrStoreFrame : Bool
  wrStoreFrameReg : Bool
  wrStoreFrameTog : Bool
  wrDataPipe : BitVec 64
  wrRem : BitVec 3
  wrEof : Bool
deriving DecidableEq, Repr

namespace WrSide

variable {w : Nat} (side : WrSide w) (axis : WrAxis)

/-- `wr_sreset`. `wr_eof` is not in it. -/
def reset : WrSide w :=
  ⟨0, 0, 0, 0, 0, 0, 0, false, false, false, false, false, 0, 0, side.wrEof⟩

/-- `wr_rd_addr`. -/
def wrRdAddr : BitVec w := grayToBin side.wrRdAddrGrayD4

/-- `wr_addr_diff_comb`. -/
def wrAddrDiffComb : BitVec w := side.wrRdAddr - side.wrAddr

/-- `wr_enable`. -/
def wrEnable : Bool := axis.tkeep.getLsbD 0 && axis.tvalid && !side.wrFifoFull

/-- `wr_enable_ram`. -/
def wrEnableRam : Bool := side.wrRem = 0b111 && side.wrEnable axis || side.wrEof

/-- What is written to the RAM: `wr_data_pipe` and `wr_ctrl_pipe`. -/
def ramWord : RamWord := ⟨side.wrDataPipe, BitVec.ofBool side.wrEof ++ side.wrRem⟩

/-- One rising edge of `wr_axis_aclk`. -/
def clock (wrFlowCtrl : Bool) (rdAddrGrayReg : BitVec w) : WrSide w where
  wrAddr :=
    if axis.tlast && side.wrFifoFull && !wrFlowCtrl || axis.tlast && !axis.tuser ||
        !side.eofBeforeFifoFullSeen && side.wrFifoFull then side.wrAddrLast
    else if side.wrEnableRam axis then side.wrAddr + 1
    else side.wrAddr
  wrAddrLast := if side.wrStoreFrameReg then side.wrAddr else side.wrAddrLast
  wrRdAddrGray := rdAddrGrayReg
  wrRdAddrGrayD1 := side.wrRdAddrGray
  wrRdAddrGrayD2 := side.wrRdAddrGrayD1
  wrRdAddrGrayD3 := side.wrRdAddrGrayD2
  wrRdAddrGrayD4 := side.wrRdAddrGrayD3
  wrFifoFull :=
    if axis.tlast && !wrFlowCtrl then false
    else if side.wrAddrDiffComb >>> 3 = 0 ∧ side.wrAddrDiffComb.setWidth 3 ≠ 0 then true
    else if wrFlowCtrl || axis.tlast || !axis.tvalid then false
    else side.wrFifoFull
  eofBeforeFifoFullSeen :=
    if side.wrRdAddr = side.wrAddrLast - 1 then false
    else if side.wrEof && !side.wrFifoFull then true
    else side.eofBeforeFifoFullSeen
  wrStoreFrame := axis.tuser && axis.tvalid && !side.wrFifoFull
  wrStoreFrameReg := side.wrStoreFrame
  wrStoreFrameTog :=
    if axis.tuser && axis.tvalid && !side.wrFifoFull then !side.wrStoreFrameTog
    else side.wrStoreFrameTog
  wrDataPipe := if side.wrEnable axis then axis.tdata else side.wrDataPipe
  wrRem :=
    if side.wrEnable axis then remainder axis.tkeep
    else if side.wrEof then 0
    else side.wrRem
  wrEof := axis.tlast && axis.tuser && axis.tvalid && (!wrFlowCtrl || !side.wrFifoFull)

end WrSide

/-! ### The read side -/

/-- `rd_state`. -/
inductive RdState where
  | idle | init1 | init2 | inProgress | endOfFrame
deriving DecidableEq, Repr

/-- The registers of the read side, with the output of the RAM. -/
structure RdSide (w : Nat) where
  rdAddr : BitVec w
  rdAddrGrayReg : BitVec w
  rdStoreFrameTog : Bool
  rdStoreFrameTogD1 : Bool
  rdStoreFrameTogD2 : Bool
  rdStoreFrameTogD3 : Bool
  rdStoreFrameSync : Bool
  rdStoreFrame : Bool
  rdFrames : BitVec (w - 1)
  rdAvail : Bool
  rdState : RdState
  rdWord : RamWord
  rdAxisTdata : BitVec 64
  rdAxisTkeep : BitVec 8
  rdAxisTlast : Bool
  rdAxisTvalid : Bool
deriving DecidableEq, Repr

namespace RdSide

variable {w : Nat} (side : RdSide w) (tready : Bool)

/-- `rd_sreset`. -/
def reset : RdSide w :=
  ⟨0, 0, false, false, false, false, false, false, 0, false, .idle, ⟨0, 0⟩, 0, 0, false, false⟩

/-- `rd_ctrl(3)`. -/
def eof : Bool := side.rdWord.ctrl.getLsbD 3

/-- `rd_enable`. -/
def rdEnable : Bool :=
  match side.rdState with
  | .init1 | .init2 => true
  | .inProgress => !side.eof && tready
  | _ => false

/-- What is on the read interface. -/
def beat : TxBeat := ⟨side.rdAxisTdata, side.rdAxisTkeep, side.rdAxisTlast⟩

/-- `p_rd_frames`. -/
def nextFrames : BitVec (w - 1) :=
  if side.rdStoreFrame then
    if side.rdState = .init1 then side.rdFrames
    else if side.rdFrames ≠ BitVec.allOnes (w - 1) then side.rdFrames + 1
    else side.rdFrames
  else if side.rdState = .init1 then
    if side.rdFrames ≠ 0 then side.rdFrames - 1 else side.rdFrames
  else side.rdFrames

/-- `p_rd_state`. -/
def nextState : RdState :=
  match side.rdState with
  | .idle => if side.rdAvail then .init1 else .idle
  | .init1 => .init2
  | .init2 => .inProgress
  | .inProgress => if tready && side.eof then .endOfFrame else .inProgress
  | .endOfFrame =>
    if tready then (if side.rdAvail then .init1 else .idle) else .endOfFrame

/-- Whether `p_rd_pipe` takes the output of the RAM. -/
def takes : Bool := side.rdState = .init2 || side.rdState ≠ .idle && tready

/-- One rising edge of `rd_axis_aclk`. -/
def clock (wrStoreFrameTog : Bool) (ram : BitVec w → RamWord) : RdSide w where
  rdAddr := if side.rdEnable tready then side.rdAddr + 1 else side.rdAddr
  rdAddrGrayReg := binToGray side.rdAddr
  rdStoreFrameTog := wrStoreFrameTog
  rdStoreFrameTogD1 := side.rdStoreFrameTog
  rdStoreFrameTogD2 := side.rdStoreFrameTogD1
  rdStoreFrameTogD3 := side.rdStoreFrameTogD2
  rdStoreFrameSync := side.rdStoreFrameTogD3
  rdStoreFrame := side.rdStoreFrameSync ^^ side.rdStoreFrameTogD3
  rdFrames := side.nextFrames
  rdAvail := side.rdFrames ≠ 0
  rdState := side.nextState tready
  rdWord := if side.rdEnable tready then ram side.rdAddr else side.rdWord
  rdAxisTdata := if side.takes tready then side.rdWord.data else side.rdAxisTdata
  rdAxisTkeep :=
    if side.takes tready then tkeepOf (side.rdWord.ctrl.setWidth 3) else side.rdAxisTkeep
  rdAxisTlast :=
    if side.takes tready then side.rdState = .inProgress && side.eof else side.rdAxisTlast
  rdAxisTvalid :=
    if side.rdState = .init2 then true
    else if side.rdState = .endOfFrame && tready then false
    else side.rdAxisTvalid

end RdSide

/-! ### Both sides -/

/-- The two sides and the RAM. -/
@[ext] structure AxiFifo (w : Nat) where
  wr : WrSide w
  rd : RdSide w
  ram : BitVec w → RamWord

/-- An edge of the write clock, of the read clock, or of both. -/
inductive FifoTick (w : Nat) where
  | write (axis : WrAxis)
  | read (tready : Bool)
  | both (axis : WrAxis) (tready : Bool) (skew : BitVec w)
deriving DecidableEq, Repr

namespace AxiFifo

variable {w : Nat} (wrFlowCtrl : Bool) (fifo : AxiFifo w)

/-- The state that the configuration of the device leaves. -/
def configured : AxiFifo w :=
  ⟨⟨0, 0, 0, 0, 0, 0, 0, false, false, false, false, false, 0, 0, false⟩, .reset, fun _ => ⟨0, 0⟩⟩

/-- The state at the end of the resets. -/
def reset : AxiFifo w := ⟨fifo.wr.reset, .reset, fifo.ram⟩

/-- An edge of the write clock, with the pointer as it is sampled. -/
def writeEdge (axis : WrAxis) (rdAddrGrayReg : BitVec w) : AxiFifo w :=
  { fifo with
    wr := fifo.wr.clock axis wrFlowCtrl rdAddrGrayReg
    ram := if fifo.wr.wrEnableRam axis then Function.update fifo.ram fifo.wr.wrAddr fifo.wr.ramWord
      else fifo.ram }

/-- An edge of the read clock. -/
def readEdge (tready : Bool) : AxiFifo w :=
  { fifo with rd := fifo.rd.clock tready fifo.wr.wrStoreFrameTog fifo.ram }

/-- The state after a tick. -/
def step : FifoTick w → AxiFifo w
  | .write axis => fifo.writeEdge wrFlowCtrl axis fifo.rd.rdAddrGrayReg
  | .read tready => fifo.readEdge tready
  | .both axis tready skew =>
    let after := fifo.readEdge tready
    after.writeEdge wrFlowCtrl axis
      (Gray.sample skew fifo.rd.rdAddrGrayReg after.rd.rdAddrGrayReg)

end AxiFifo

end K71GbE.TenGigEth
