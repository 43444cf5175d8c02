/-
This file says what one step of the command process of `control_interface` can
do: every transition of its state machine, with what enables it and what it
assigns. The invariants are case analyses of it.
-/

import K71GbE.Control.Interface

namespace K71GbE.Control

open Clocked

namespace ControlInterface

/-- The value a READ of a register puts on the output. -/
def readValue (old : ControlInterface) (ports : Ports) : BitVec 16 :=
  match target (addressI ports.cmdFifoQ) with
  | .configReg i => part 16 old.sConfigReg i
  | .statusReg i => part 16 ports.statusReg i
  | .memioCnt => old.sMemioCnt
  | .addrLow => part 16 old.sAddrA 0
  | .addrHigh => part 16 old.sAddrA 1
  | _ => BitVec.allOnes 16

/-- The transitions out of `INTERPRET_CMD`, by the fields of the command word. -/
inductive Interpretation (old : ControlInterface) (ports : Ports) (isRead : Bool)
    (selected : Target) (data : BitVec 16) : ControlInterface → Prop
  | readRegister (read : isRead = true) (register : selected ≠ .memHigh) :
      Interpretation old ports isRead selected data
        { old.defaults with
          sRegOut := old.readValue ports, sFifoWrreq := true, cmdState := .waitCmd }
  | readMemory (read : isRead = true) (memory : selected = .memHigh)
      (room : ports.sFifoFull = false) :
      Interpretation old ports isRead selected data
        { old.defaults with
          counterV := old.sMemioCnt.toNat, bMemNotReg := .selMem, sFifoWrreq := true,
          sAddrA := old.sAddrA + 1, cmdState := .memRdCnt }
  | stall (read : isRead = true) (memory : selected = .memHigh)
      (full : ports.sFifoFull = true) :
      Interpretation old ports isRead selected data
        { old.defaults with counterV := old.sMemioCnt.toNat, bMemNotReg := .selMem }
  | writeConfig (i : Fin 32) (notRead : isRead = false) (register : selected = .configReg i) :
      Interpretation old ports isRead selected data
        { old.defaults with sConfigReg := setPart old.sConfigReg i data, cmdState := .waitCmd }
  | writePulse (notRead : isRead = false) (register : selected = .pulseReg) :
      Interpretation old ports isRead selected data
        { old.defaults with sPulseReg := data, counterV := 2, cmdState := .pulseDelay }
  | writeCount (notRead : isRead = false) (register : selected = .memioCnt) :
      Interpretation old ports isRead selected data
        { old.defaults with sMemioCnt := data, cmdState := .waitCmd }
  | writeAddrLow (notRead : isRead = false) (register : selected = .addrLow) :
      Interpretation old ports isRead selected data
        { old.defaults with sAddrA := setPart old.sAddrA 0 data, cmdState := .waitCmd }
  | writeAddrHigh (notRead : isRead = false) (register : selected = .addrHigh) :
      Interpretation old ports isRead selected data
        { old.defaults with sAddrA := setPart old.sAddrA 1 data, cmdState := .waitCmd }
  | writeMemLow (notRead : isRead = false) (register : selected = .memLow) :
      Interpretation old ports isRead selected data
        { old.defaults with sDinReg := data, cmdState := .waitCmd }
  | writeMemHigh (notRead : isRead = false) (register : selected = .memHigh) :
      Interpretation old ports isRead selected data
        { old.defaults with sWea := true, cmdState := .memAdv }
  | writeDataFifo (notRead : isRead = false) (register : selected = .dataFifo) :
      Interpretation old ports isRead selected data
        { old.defaults with
          counterFIFO := data.toNat, bMemNotReg := .selFifo, cmdState := .fifoAdv }
  | writeOthers (notRead : isRead = false)
      (register : (∃ i, selected = .statusReg i) ∨ selected = .others) :
      Interpretation old ports isRead selected data { old.defaults with cmdState := .waitCmd }

/-- The transitions of the command process. -/
inductive Step (old : ControlInterface) (ports : Ports) : ControlInterface → Prop
  | init (state : old.cmdState = .init) :
      Step old ports
        { old.defaults with
          sConfigReg := 0, sPulseReg := 0, sAddrA := 0, sMemioCnt := 1, cmdState := .waitCmd }
  | wait (state : old.cmdState = .waitCmd) (empty : ports.cmdFifoEmpty = true) :
      Step old ports { old.defaults with bMemNotReg := .selReg, sPulseReg := 0 }
  | fetch (state : old.cmdState = .waitCmd) (visible : ports.cmdFifoEmpty = false) :
      Step old ports
        { old.defaults with
          bMemNotReg := .selReg, sPulseReg := 0, cmdFifoRdreq := true, cmdState := .interpretCmd }
  | interpret {next : ControlInterface} (state : old.cmdState = .interpretCmd)
      (moved : Interpretation old ports (readNotWrite ports.cmdFifoQ)
        (target (addressI ports.cmdFifoQ)) (dataOf ports.cmdFifoQ) next) : Step old ports next
  | memAdv (state : old.cmdState = .memAdv) :
      Step old ports { old.defaults with sAddrA := old.sAddrA + 1, cmdState := .waitCmd }
  | memDone (state : old.cmdState = .memRdCnt) (last : old.counterV = 1) :
      Step old ports { old.defaults with counterV := 0, cmdState := .waitCmd }
  | memNext (state : old.cmdState = .memRdCnt) (more : old.counterV ≠ 1)
      (room : ports.sFifoFull = false) :
      Step old ports
        { old.defaults with
          counterV := old.counterV - 1, sFifoWrreq := true, sAddrA := old.sAddrA + 1 }
  | memHold (state : old.cmdState = .memRdCnt) (more : old.counterV ≠ 1)
      (full : ports.sFifoFull = true) :
      Step old ports old.defaults
  | pulseDone (state : old.cmdState = .pulseDelay) (last : old.counterV = 1) :
      Step old ports { old.defaults with counterV := 0, cmdState := .waitCmd }
  | pulseHold (state : old.cmdState = .pulseDelay) (more : old.counterV ≠ 1) :
      Step old ports { old.defaults with counterV := old.counterV - 1 }
  | transferDone (state : old.cmdState = .fifoAdv) (visible : ports.dataFifoEmpty = false)
      (room : ports.sFifoFull = false) (last : old.counterFIFO = 0) :
      Step old ports { old.defaults with bMemNotReg := .selReg, cmdState := .waitCmd }
  | transferNext (state : old.cmdState = .fifoAdv) (visible : ports.dataFifoEmpty = false)
      (room : ports.sFifoFull = false) (more : old.counterFIFO ≠ 0) :
      Step old ports
        { old.defaults with bMemNotReg := .selFifo, counterFIFO := old.counterFIFO - 1 }
  | transferHold (state : old.cmdState = .fifoAdv)
      (blocked : ports.dataFifoEmpty = true ∨ ports.sFifoFull = true) :
      Step old ports { old.defaults with bMemNotReg := .selFifo }
  | others (state : old.cmdState = .getCmd) :
      Step old ports { old.defaults with cmdState := .waitCmd }

/-- A READ of a register is `readValue` on the output and a strobe. -/
theorem interpretRead_of_register {old next : ControlInterface} {ports : Ports}
    (register : target (addressI ports.cmdFifoQ) ≠ .memHigh) :
    old.interpretRead ports next =
      { next with sRegOut := old.readValue ports, sFifoWrreq := true, cmdState := .waitCmd } := by
  unfold interpretRead readValue
  cases selected : target (addressI ports.cmdFifoQ) with
  | memHigh => exact absurd selected register
  | _ => rfl

/-- The two `CASE address_i` statements make these transitions. -/
theorem interpretRead_step (old : ControlInterface) {ports : Ports}
    (read : readNotWrite ports.cmdFifoQ = true) :
    Interpretation old ports (readNotWrite ports.cmdFifoQ) (target (addressI ports.cmdFifoQ))
      (dataOf ports.cmdFifoQ) (old.interpretRead ports old.defaults) := by
  by_cases memory : target (addressI ports.cmdFifoQ) = .memHigh
  · unfold interpretRead
    rw [memory]
    cases full : ports.sFifoFull with
    | true => exact .stall read rfl full
    | false => exact .readMemory read rfl full
  · rw [interpretRead_of_register memory]
    exact .readRegister read memory

theorem interpretWrite_step (old : ControlInterface) {ports : Ports}
    (notRead : readNotWrite ports.cmdFifoQ = false) :
    Interpretation old ports (readNotWrite ports.cmdFifoQ) (target (addressI ports.cmdFifoQ))
      (dataOf ports.cmdFifoQ) (old.interpretWrite ports old.defaults) := by
  unfold interpretWrite
  cases target (addressI ports.cmdFifoQ) with
  | configReg i => exact .writeConfig i notRead rfl
  | statusReg i => exact .writeOthers notRead (Or.inl ⟨i, rfl⟩)
  | pulseReg => exact .writePulse notRead rfl
  | memioCnt => exact .writeCount notRead rfl
  | addrLow => exact .writeAddrLow notRead rfl
  | addrHigh => exact .writeAddrHigh notRead rfl
  | memLow => exact .writeMemLow notRead rfl
  | memHigh => exact .writeMemHigh notRead rfl
  | dataFifo => exact .writeDataFifo notRead rfl
  | others => exact .writeOthers notRead (Or.inr rfl)

/-- Every step of the command process is one of the transitions. -/
theorem cmdIF_step (old : ControlInterface) (ports : Ports) :
    Step old ports (old.cmdIF ports) := by
  unfold cmdIF
  cases state : old.cmdState with
  | init => exact .init state
  | waitCmd =>
    cases empty : ports.cmdFifoEmpty with
    | true => exact .wait state empty
    | false => exact .fetch state empty
  | getCmd => exact .others state
  | interpretCmd =>
    refine .interpret state ?_
    show Interpretation old ports _ _ _
      (if readNotWrite ports.cmdFifoQ then old.interpretRead ports old.defaults
      else old.interpretWrite ports old.defaults)
    by_cases read : readNotWrite ports.cmdFifoQ = true
    · rw [if_pos read]
      exact interpretRead_step old read
    · rw [if_neg read]
      exact interpretWrite_step old (Bool.eq_false_iff.mpr read)
  | memAdv => exact .memAdv state
  | memRdCnt =>
    by_cases last : old.counterV = 1
    · have done : old.counterV - 1 = 0 := by omega
      simpa [done, defaults] using Step.memDone state last
    · have more : old.counterV - 1 ≠ 0 := by omega
      cases full : ports.sFifoFull with
      | true => simpa [more, state, defaults] using Step.memHold state last full
      | false => simpa [more, state, defaults] using Step.memNext state last full
  | pulseDelay =>
    by_cases last : old.counterV = 1
    · have done : old.counterV - 1 = 0 := by omega
      simpa [done, defaults] using Step.pulseDone state last
    · have more : old.counterV - 1 ≠ 0 := by omega
      simpa [more, state, defaults] using Step.pulseHold state last
  | fifoAdv =>
    cases empty : ports.dataFifoEmpty with
    | true => simpa [state, defaults] using Step.transferHold state (Or.inl empty)
    | false =>
      cases full : ports.sFifoFull with
      | true => simpa [state, defaults] using Step.transferHold state (Or.inr full)
      | false =>
        by_cases last : old.counterFIFO = 0
        · simpa [defaults, last] using Step.transferDone state empty full last
        · simpa [defaults, last, state] using Step.transferNext state empty full last

/-- A READ of the memory that meets a full output FIFO stays to be interpreted. -/
theorem cmdIF_of_stall {old : ControlInterface} (ports : Ports)
    (state : old.cmdState = .interpretCmd) (asked : readsMemory ports.cmdFifoQ = true)
    (full : ports.sFifoFull = true) :
    old.cmdIF ports =
      { old.defaults with counterV := old.sMemioCnt.toNat, bMemNotReg := .selMem } := by
  obtain ⟨read, memory⟩ := Bool.and_eq_true_iff.mp asked
  simp [cmdIF, interpretRead, state, read, eq_of_beq memory, full]

/-- The read request is high exactly on the way into `INTERPRET_CMD`, but for a stalled READ of
the memory. -/
theorem Step.fetching {old next : ControlInterface} {ports : Ports} (step : Step old ports next)
    (noStall : old.cmdState = .interpretCmd → readsMemory ports.cmdFifoQ = true →
      ports.sFifoFull = false) :
    next.cmdFifoRdreq = decide (next.cmdState = .interpretCmd) := by
  cases step with
  | interpret before moved =>
    cases moved with
    | stall read memory full =>
      rw [noStall before (readsMemory_of read memory)] at full
      cases full
    | _ => simp [defaults]
  | _ => simp [defaults, *]

/-- A command is about to be interpreted after a fetch, or after a stalled READ of the memory. -/
theorem Step.interpreting {old next : ControlInterface} {ports : Ports} (step : Step old ports next)
    (state : next.cmdState = .interpretCmd) :
    old.cmdState = .waitCmd ∧ ports.cmdFifoEmpty = false ∨
      old.cmdState = .interpretCmd ∧ readsMemory ports.cmdFifoQ = true ∧
        ports.sFifoFull = true := by
  cases step with
  | fetch before visible => exact Or.inl ⟨before, visible⟩
  | interpret before moved =>
    cases moved with
    | stall read memory full => exact Or.inr ⟨before, readsMemory_of read memory, full⟩
    | _ => cases state
  | _ => simp_all [defaults]

end ControlInterface

end K71GbE.Control
