/-
This file says once what a clock edge does to the registers of
`sdram_buffer_fifo`: the fields of the status process as one expression each,
the moves of the write FSM and of the read FSM as a relation with one
constructor a move, and the events a memory controller sees on the bus. The
later files derive their invariants from these and never unfold a process.
-/

import K71GbE.Sdram.Buffer
import Mathlib.Data.Nat.ModEq
import Mathlib.Tactic.Ring

namespace K71GbE.Sdram

variable {w : Nat} {burst : Nat} {core : Core w} {edge : Edge w}

/-! ### Addresses -/

/-- The address `k` bursts after `begin`, in the width of the address registers. -/
def burstAddress (burst : Nat) (begin : BitVec w) (k : Nat) : BitVec w :=
  begin + BitVec.ofNat w (burst * k)

@[simp] theorem burstAddress_zero (begin : BitVec w) : burstAddress burst begin 0 = begin := by
  simp [burstAddress]

theorem advance_burstAddress (begin : BitVec w) (k : Nat) :
    advance burst (burstAddress burst begin k) = burstAddress burst begin (k + 1) := by
  rw [advance, burstAddress, burstAddress, BitVec.add_assoc, ← BitVec.ofNat_add, Nat.mul_succ]

theorem burstAddress_toNat (begin : BitVec w) (k : Nat) :
    (burstAddress burst begin k).toNat = (begin.toNat + burst * k) % 2 ^ w := by
  rw [burstAddress, BitVec.toNat_add, BitVec.toNat_ofNat, Nat.add_mod_mod]

theorem memorySize_le : 2 ^ (w - 1) ≤ 2 ^ w := Nat.pow_le_pow_right (by decide) (Nat.sub_le w 1)

theorem memorySize_dvd : 2 ^ (w - 1) ∣ 2 ^ w := Nat.pow_dvd_pow 2 (Nat.sub_le w 1)

theorem memoryAddress_toNat (address : BitVec w) :
    (memoryAddress address).toNat = address.toNat % 2 ^ (w - 1) := by
  have small : address.toNat % 2 ^ (w - 1) < 2 ^ w :=
    lt_of_lt_of_le (Nat.mod_lt _ (Nat.two_pow_pos _)) memorySize_le
  rw [memoryAddress, BitVec.toNat_ofNat, Nat.mod_eq_of_lt small]

/-- On the bus the walk is taken modulo the memory size. -/
theorem memoryAddress_burstAddress (begin : BitVec w) (k : Nat) :
    (memoryAddress (burstAddress burst begin k)).toNat =
      (begin.toNat + burst * k) % 2 ^ (w - 1) := by
  rw [memoryAddress_toNat, burstAddress_toNat, Nat.mod_mod_of_dvd _ memorySize_dvd]

/-! ### Edges outside reset -/

theorem Core.settle_of_running {ports : Ports w} (running : ports.inReset = false) :
    core.settle ports = core := by
  rw [Core.settle, running, if_neg Bool.false_ne_true]

theorem Core.settle_of_reset {ports : Ports w} (reset : ports.inReset = true) :
    core.settle ports = core.asyncReset := by
  rw [Core.settle, reset, if_pos rfl]

theorem Core.clock_of_reset (reset : edge.inReset = true) :
    core.clock burst edge = core.asyncReset := by
  rw [Core.clock, reset, if_pos rfl]

theorem Core.clock_of_running (running : edge.inReset = false) :
    core.clock burst edge =
      ⟨statusProcess core edge, writeProcess burst core edge, readProcess burst core edge⟩ := by
  rw [Core.clock, running, if_neg Bool.false_ne_true]

/-! ### The status process, field by field -/

/-- The stop address is reached while a stop is pending. -/
def Core.stopReached (core : Core w) : Bool := core.status.wrStopping && core.atStopAddress

/-- The write pointer has come round and wrapping is not allowed. -/
def Core.autoStop (core : Core w) : Bool := core.collision && !core.status.wrWrapAroundReg

section Status

variable (core edge)

theorem statusStart_eq (next : Status w) :
    statusStart core edge next =
      { next with
        wrAddrBeginReg := if edge.wrStartPulse then edge.wrAddrBegin else next.wrAddrBeginReg
        wrWrapAroundReg := if edge.wrStartPulse then edge.wrWrapAround else next.wrWrapAroundReg
        wrWrappedI :=
          if edge.wrStartPulse then false else if core.collision then true else next.wrWrappedI
        wrStopping :=
          if edge.wrStartPulse then false else if core.autoStop then false else next.wrStopping
        wrWriting :=
          if edge.wrStartPulse then true else if core.autoStop then false else next.wrWriting
        rdReading := if edge.wrStartPulse then false else next.rdReading } := by
  cases start : edge.wrStartPulse with
  | true => simp only [statusStart, start, if_true]
  | false =>
    cases collision : core.collision <;> cases wrap : core.status.wrWrapAroundReg <;>
      simp [statusStart, Core.autoStop, start, collision, wrap]

theorem statusStop_eq (next : Status w) :
    statusStop core edge next =
      { next with
        postTriggerReg := if edge.wrStopPulse then edge.postTrigger else next.postTriggerReg
        triggerPointerReg :=
          if edge.wrStopPulse && core.status.wrWriting then core.writer.wrAddrI
          else next.triggerPointerReg
        wrStopping :=
          if edge.wrStopPulse && core.status.wrWriting then true else next.wrStopping } := by
  cases stop : edge.wrStopPulse <;> cases writing : core.status.wrWriting <;>
    simp [statusStop, stop, writing]

theorem statusStopping_eq (next : Status w) :
    statusStopping core next =
      { next with
        wrStopping := if core.stopReached then false else next.wrStopping
        wrWriting := if core.stopReached then false else next.wrWriting } := by
  cases stopping : core.status.wrStopping <;> cases reached : core.atStopAddress <;>
    simp [statusStopping, Core.stopReached, stopping, reached]

theorem statusReading_eq (next : Status w) :
    statusReading core edge next =
      { next with
        wrStopping := if edge.rdStartPulse then false else next.wrStopping
        wrWriting := if edge.rdStartPulse then false else next.wrWriting
        rdAddrBeginReg := if edge.rdStartPulse then edge.rdAddrBegin else next.rdAddrBeginReg
        rdAddrEndReg := if edge.rdStartPulse then edge.rdAddrEnd else next.rdAddrEndReg
        rdReading :=
          if edge.rdStartPulse then true else if core.readEnd then false else next.rdReading } := by
  cases start : edge.rdStartPulse <;> cases readEnd : core.readEnd <;>
    simp [statusReading, start, readEnd]

/-- Every register of the status process after the edge; the last assignment wins. -/
theorem statusProcess_eq :
    statusProcess core edge =
      { wrAddrBeginReg := if edge.wrStartPulse then edge.wrAddrBegin else core.status.wrAddrBeginReg
        wrWrapAroundReg :=
          if edge.wrStartPulse then edge.wrWrapAround else core.status.wrWrapAroundReg
        postTriggerReg := if edge.wrStopPulse then edge.postTrigger else core.status.postTriggerReg
        triggerPointerReg :=
          if edge.wrStopPulse && core.status.wrWriting then core.writer.wrAddrI
          else core.status.triggerPointerReg
        wrWrappedI :=
          if edge.wrStartPulse then false
          else if core.collision then true
          else core.status.wrWrappedI
        wrStopping :=
          if edge.rdStartPulse then false
          else if core.stopReached then false
          else if edge.wrStopPulse && core.status.wrWriting then true
          else if edge.wrStartPulse then false
          else if core.autoStop then false
          else core.status.wrStopping
        wrWriting :=
          if edge.rdStartPulse then false
          else if core.stopReached then false
          else if edge.wrStartPulse then true
          else if core.autoStop then false
          else core.status.wrWriting
        rdAddrBeginReg := if edge.rdStartPulse then edge.rdAddrBegin else core.status.rdAddrBeginReg
        rdAddrEndReg := if edge.rdStartPulse then edge.rdAddrEnd else core.status.rdAddrEndReg
        rdReading :=
          if edge.rdStartPulse then true
          else if core.readEnd then false
          else if edge.wrStartPulse then false
          else core.status.rdReading } := by
  rw [statusProcess, statusStart_eq, statusStop_eq, statusStopping_eq, statusReading_eq]

end Status

/-- After an edge `WR_BUSY` is high by a write start, or because it was. -/
theorem wrWriting_after (writing : (statusProcess core edge).wrWriting = true) :
    edge.rdStartPulse = false ∧
      (edge.wrStartPulse = true ∨ edge.wrStartPulse = false ∧ core.status.wrWriting = true) := by
  rw [statusProcess_eq] at writing
  cases read : edge.rdStartPulse <;> cases start : edge.wrStartPulse <;> simp_all

/-! ### The moves of the write FSM -/

/-- The moves of the write FSM, before a start pulse overrides them. -/
inductive WriteStep (burst : Nat) (core : Core w) (edge : Edge w) : Writer w → Prop
  | wait (state : core.writer.writeState = .W0)
      (idle : edge.indataFifoEmpty = true ∨ core.status.wrWriting = false) :
      WriteStep burst core edge ⟨core.writer.wrAddrI, .W0, false, false, false, false⟩
  | present (state : core.writer.writeState = .W0) (visible : edge.indataFifoEmpty = false)
      (writing : core.status.wrWriting = true) :
      WriteStep burst core edge ⟨core.writer.wrAddrI, .W1, true, true, true, false⟩
  | holdBeat (state : core.writer.writeState = .W1) (stall : edge.appWdfRdy = false) :
      WriteStep burst core edge ⟨core.writer.wrAddrI, .W1, false, true, true, false⟩
  | beat (state : core.writer.writeState = .W1) (ready : edge.appWdfRdy = true) :
      WriteStep burst core edge ⟨core.writer.wrAddrI, .W2, false, false, false, true⟩
  | holdCommand (state : core.writer.writeState = .W2) (stall : edge.appRdy = false)
      (writing : core.status.wrWriting = true) :
      WriteStep burst core edge ⟨core.writer.wrAddrI, .W2, false, false, false, true⟩
  | abandon (state : core.writer.writeState = .W2) (stall : edge.appRdy = false)
      (ended : core.status.wrWriting = false) :
      WriteStep burst core edge ⟨core.writer.wrAddrI, .W0, false, false, false, true⟩
  | command (state : core.writer.writeState = .W2) (ready : edge.appRdy = true) :
      WriteStep burst core edge
        ⟨advance burst core.writer.wrAddrI, .W0, false, false, false, false⟩
  | others (state : core.writer.writeState = .W3 ∨ core.writer.writeState = .W4) :
      WriteStep burst core edge ⟨core.writer.wrAddrI, .W0, false, false, false, false⟩

theorem writeFsm_step (burst : Nat) (core : Core w) (edge : Edge w) :
    WriteStep burst core edge (writeFsm burst core edge) := by
  cases state : core.writer.writeState with
  | W0 =>
    by_cases busy : edge.indataFifoEmpty = false ∧ core.status.wrWriting = true
    · simp only [writeFsm, state, if_pos busy]
      exact .present state busy.1 busy.2
    · simp only [writeFsm, state, if_neg busy]
      exact .wait state (by simpa [imp_iff_not_or] using busy)
  | W1 =>
    cases ready : edge.appWdfRdy with
    | false =>
      simp only [writeFsm, state, ready, Bool.false_eq_true, if_false]
      exact .holdBeat state ready
    | true =>
      simp only [writeFsm, state, ready, if_true]
      exact .beat state ready
  | W2 =>
    cases ready : edge.appRdy with
    | false =>
      cases writing : core.status.wrWriting with
      | false =>
        simp only [writeFsm, state, ready, writing, Bool.false_eq_true, if_false, if_true]
        exact .abandon state ready writing
      | true =>
        simp only [writeFsm, state, ready, writing, Bool.false_eq_true, Bool.true_eq_false,
          if_false]
        exact .holdCommand state ready writing
    | true =>
      simp only [writeFsm, state, ready, if_true, ite_self]
      exact .command state ready
  | W3 =>
    simp only [writeFsm, state]
    exact .others (Or.inl state)
  | W4 =>
    simp only [writeFsm, state]
    exact .others (Or.inr state)

theorem writeProcess_of_noStart (noStart : edge.wrStartPulse = false) :
    writeProcess burst core edge = writeFsm burst core edge := by
  rw [writeProcess, noStart, if_neg Bool.false_ne_true]

/-- A start pulse forces `W0` and loads the address, and leaves the strobes as they come. -/
theorem writeProcess_of_start (start : edge.wrStartPulse = true) :
    writeProcess burst core edge =
      { writeFsm burst core edge with wrAddrI := edge.wrAddrBegin, writeState := .W0 } := by
  rw [writeProcess, start, if_pos rfl]

/-- The edge at which the command is accepted. -/
theorem writeFsm_of_accepted (state : core.writer.writeState = .W2)
    (ready : edge.appRdy = true) :
    writeFsm burst core edge =
      ⟨advance burst core.writer.wrAddrI, .W0, false, false, false, false⟩ := by
  simp only [writeFsm, state, ready, if_true, ite_self]

/-! ### The moves of the read FSM -/

theorem readFsm_of_R1 (burst : Nat) (edge : Edge w) (state : core.reader.readState = .R1) :
    readFsm burst core edge =
      if edge.rdReadable then ⟨core.reader.rdAddrI, true, .R2⟩
      else ⟨core.reader.rdAddrI, false, .R1⟩ := by
  simp only [readFsm, state]

theorem readFsm_of_R2 (burst : Nat) (edge : Edge w) (state : core.reader.readState = .R2) :
    readFsm burst core edge =
      if edge.appRdy then ⟨core.reader.rdAddrI, false, .R3⟩
      else ⟨core.reader.rdAddrI, true, .R2⟩ := by
  simp only [readFsm, state]

theorem readFsm_of_R3 (burst : Nat) (edge : Edge w) (state : core.reader.readState = .R3) :
    readFsm burst core edge =
      if edge.appRdDataValid then ⟨advance burst core.reader.rdAddrI, false, .R1⟩
      else ⟨core.reader.rdAddrI, false, .R3⟩ := by
  simp only [readFsm, state]

/-- The moves of the read FSM, before the higher priority conditions. -/
inductive ReadStep (burst : Nat) (core : Core w) (edge : Edge w) : Reader w → Prop
  | rest (state : core.reader.readState = .R0 ∨ core.reader.readState = .R4) :
      ReadStep burst core edge ⟨core.reader.rdAddrI, false, .R0⟩
  | hold (state : core.reader.readState = .R1) (blocked : edge.rdReadable = false) :
      ReadStep burst core edge ⟨core.reader.rdAddrI, false, .R1⟩
  | issue (state : core.reader.readState = .R1) (readable : edge.rdReadable = true) :
      ReadStep burst core edge ⟨core.reader.rdAddrI, true, .R2⟩
  | holdCommand (state : core.reader.readState = .R2) (stall : edge.appRdy = false) :
      ReadStep burst core edge ⟨core.reader.rdAddrI, true, .R2⟩
  | command (state : core.reader.readState = .R2) (ready : edge.appRdy = true) :
      ReadStep burst core edge ⟨core.reader.rdAddrI, false, .R3⟩
  | await (state : core.reader.readState = .R3) (pending : edge.appRdDataValid = false) :
      ReadStep burst core edge ⟨core.reader.rdAddrI, false, .R3⟩
  | data (state : core.reader.readState = .R3) (valid : edge.appRdDataValid = true) :
      ReadStep burst core edge ⟨advance burst core.reader.rdAddrI, false, .R1⟩

theorem readFsm_step (burst : Nat) (core : Core w) (edge : Edge w) :
    ReadStep burst core edge (readFsm burst core edge) := by
  cases state : core.reader.readState with
  | R0 =>
    simp only [readFsm, state]
    exact .rest (Or.inl state)
  | R1 =>
    rw [readFsm_of_R1 burst edge state]
    cases readable : edge.rdReadable with
    | false => exact .hold state readable
    | true => exact .issue state readable
  | R2 =>
    rw [readFsm_of_R2 burst edge state]
    cases ready : edge.appRdy with
    | false => exact .holdCommand state ready
    | true => exact .command state ready
  | R3 =>
    rw [readFsm_of_R3 burst edge state]
    cases valid : edge.appRdDataValid with
    | false => exact .await state valid
    | true => exact .data state valid
  | R4 =>
    simp only [readFsm, state]
    exact .rest (Or.inr state)

theorem readProcess_of_idle (idle : core.status.rdReading = false)
    (noStart : edge.rdStartPulse = false) :
    readProcess burst core edge = ⟨0, false, .R0⟩ := by
  simp only [readProcess, idle, noStart, if_true, Bool.false_eq_true, if_false]

theorem readProcess_of_reading (reading : core.status.rdReading = true)
    (noStart : edge.rdStartPulse = false) :
    readProcess burst core edge = readFsm burst core edge := by
  simp only [readProcess, reading, noStart, Bool.true_eq_false, Bool.false_eq_true, if_false]

/-- A start pulse loads the address and forces `R1`. -/
theorem readProcess_of_start (start : edge.rdStartPulse = true) :
    readProcess burst core edge =
      { rdAddrI := edge.rdAddrBegin
        rdAppEn := core.status.rdReading && (readFsm burst core edge).rdAppEn
        readState := .R1 } := by
  cases reading : core.status.rdReading <;>
    simp [readProcess, reading, start]

/-- The read FSM leaves this edge with its enable raised. -/
def Core.RaisesRead (core : Core w) (edge : Edge w) : Prop :=
  core.status.rdReading = true ∧
    (core.reader.readState = .R1 ∧ edge.rdReadable = true ∨
      core.reader.readState = .R2 ∧ edge.appRdy = false)

instance (core : Core w) (edge : Edge w) : Decidable (core.RaisesRead edge) :=
  inferInstanceAs (Decidable (_ ∧ ((_ ∧ _) ∨ (_ ∧ _))))

theorem rdAppEn_of_not_raises (rests : ¬core.RaisesRead edge) :
    (readProcess burst core edge).rdAppEn = false := by
  cases reading : core.status.rdReading with
  | false =>
    cases start : edge.rdStartPulse with
    | false => rw [readProcess_of_idle reading start]
    | true => rw [readProcess_of_start start, reading, Bool.false_and]
  | true =>
    have fsm : (readFsm burst core edge).rdAppEn = false := by
      have moved := readFsm_step burst core edge
      generalize readFsm burst core edge = next at moved
      cases moved with
      | issue state readable => exact absurd ⟨reading, Or.inl ⟨state, readable⟩⟩ rests
      | holdCommand state stall => exact absurd ⟨reading, Or.inr ⟨state, stall⟩⟩ rests
      | rest | hold | command | await | data => rfl
    cases start : edge.rdStartPulse with
    | false => rw [readProcess_of_reading reading start, fsm]
    | true => rw [readProcess_of_start start, fsm, Bool.and_false]

/-! ### What the memory controller sees -/

/-- What the memory controller accepts: a data beat, or a command with its address. -/
inductive BusEvent (w : Nat) where
  | beat
  | write (address : BitVec w)
  | read (address : BitVec w)
deriving DecidableEq, Repr

namespace BusEvent

/-- The address of a WRITE command. -/
def writeAddress : BusEvent w → Option (BitVec w)
  | write address => some address
  | _ => none

/-- The accepted WRITE commands of a log, in order. -/
def writes (events : List (BusEvent w)) : List (BitVec w) := events.filterMap writeAddress

/-- The number of data beats accepted. -/
def beats (events : List (BusEvent w)) : Nat := events.count beat

@[simp] theorem writes_nil : writes ([] : List (BusEvent w)) = [] := rfl

@[simp] theorem beats_nil : beats ([] : List (BusEvent w)) = 0 := rfl

@[simp] theorem writes_append (first second : List (BusEvent w)) :
    writes (first ++ second) = writes first ++ writes second :=
  List.filterMap_append

@[simp] theorem beats_append (first second : List (BusEvent w)) :
    beats (first ++ second) = beats first + beats second :=
  List.count_append

end BusEvent

/-- The events at one edge, read off the state in force there. -/
def Core.busEvents (core : Core w) (edge : Edge w) : List (BusEvent w) :=
  let core := core.settle edge.toPorts
  (if core.beatAccepted edge.toPorts then [.beat] else []) ++
    (if core.commandAccepted edge.toPorts then
      match core.appCmd with
      | .write => [.write core.appAddr]
      | .read => [.read core.appAddr]
    else [])

/-- Everything the memory controller accepts during a run of the processes. -/
def Core.busLog (burst : Nat) (core : Core w) (edges : List (Edge w)) : List (BusEvent w) :=
  Clocked.log (Core.clock burst) Core.busEvents core edges

open BusEvent

theorem Core.beats_busEvents (core : Core w) (edge : Edge w) :
    beats (core.busEvents edge) =
      if (core.settle edge.toPorts).beatAccepted edge.toPorts then 1 else 0 := by
  simp only [Core.busEvents]
  cases (core.settle edge.toPorts).beatAccepted edge.toPorts <;>
    cases (core.settle edge.toPorts).commandAccepted edge.toPorts <;>
    cases (core.settle edge.toPorts).appCmd <;> simp [beats]

theorem Core.writes_busEvents (core : Core w) (edge : Edge w) :
    writes (core.busEvents edge) =
      if (core.settle edge.toPorts).writeAccepted edge.toPorts then
        [memoryAddress (core.settle edge.toPorts).writer.wrAddrI]
      else [] := by
  simp only [Core.busEvents, Core.writeAccepted, Core.appCmd, Core.appAddr, writes_append]
  split_ifs <;> simp_all [writes, writeAddress]

/-! ### The same for the entity -/

namespace Buffer

/-- The entity after a run. -/
def run (burst : Nat) (buffer : Buffer w) (inputs : List (Ports w)) : Buffer w :=
  Clocked.run (clock burst) buffer inputs

/-- Everything the memory controller accepts during a run of the entity. -/
def busLog (burst : Nat) (buffer : Buffer w) (inputs : List (Ports w)) : List (BusEvent w) :=
  buffer.core.busLog burst (buffer.edges burst inputs)

/-- The addresses of the WRITE commands accepted during a run of the entity, in order. -/
def writes (burst : Nat) (buffer : Buffer w) (inputs : List (Ports w)) : List (BitVec w) :=
  BusEvent.writes (buffer.busLog burst inputs)

theorem core_run (burst : Nat) (buffer : Buffer w) (inputs : List (Ports w)) :
    (buffer.run burst inputs).core =
      Clocked.run (Core.clock burst) buffer.core (buffer.edges burst inputs) :=
  run_core burst buffer inputs

theorem edges_append (burst : Nat) (buffer : Buffer w) (first second : List (Ports w)) :
    buffer.edges burst (first ++ second) =
      buffer.edges burst first ++ (buffer.run burst first).edges burst second :=
  Clocked.feed_append buffer first second

theorem run_append (burst : Nat) (buffer : Buffer w) (first second : List (Ports w)) :
    buffer.run burst (first ++ second) = (buffer.run burst first).run burst second :=
  Clocked.run_append _ buffer first second

theorem busLog_append (burst : Nat) (buffer : Buffer w) (first second : List (Ports w)) :
    buffer.busLog burst (first ++ second) =
      buffer.busLog burst first ++ (buffer.run burst first).busLog burst second := by
  rw [busLog, edges_append, Core.busLog, Clocked.log_append, ← core_run]
  rfl

theorem writes_append (burst : Nat) (buffer : Buffer w) (first second : List (Ports w)) :
    buffer.writes burst (first ++ second) =
      buffer.writes burst first ++ (buffer.run burst first).writes burst second := by
  rw [writes, busLog_append, BusEvent.writes_append]
  rfl

/-- The converters of a buffer that has run from power-on. -/
theorem handshakes (burst : Nat) (inputs : List (Ports w)) :
    (powerOn.run burst inputs).rdStartConverter.Handshake ∧
      (powerOn.run burst inputs).wrStartConverter.Handshake ∧
      (powerOn.run burst inputs).wrStopConverter.Handshake := by
  refine Clocked.run_always
    (fun buffer : Buffer w => buffer.rdStartConverter.Handshake ∧
      buffer.wrStartConverter.Handshake ∧ buffer.wrStopConverter.Handshake)
    (fun buffer ports handshakes => ?_) ⟨Or.inl rfl, Or.inl rfl, Or.inl rfl⟩ inputs
  exact ⟨handshakes.1.clock _ _, handshakes.2.1.clock _ _, handshakes.2.2.clock _ _⟩

end Buffer

end K71GbE.Sdram
