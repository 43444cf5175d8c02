/-
This file proves that `control_interface` with its FIFOs and its memory refines
the sequential interpreter of the command words.

The mapping counts what is in progress as done: a memory write whose strobe is
registered, the rest of a memory block, the rest of a data FIFO transfer. A
command is taken at the edge that pops it, which is the edge that interprets it
unless a READ of address 20 meets a full output FIFO. That edge is excluded
here, and so is a READ of address 20 while the count register is 0. The full
flag is otherwise arbitrary.
-/

import K71GbE.Clocked.Refinement
import K71GbE.Control.Fetching

namespace K71GbE.Control

open Clocked

/-! ### Coherent states of the command process -/

/-- What the registers of `control_interface` satisfy between commands and inside them. -/
structure ControlInterface.Coherent (control : ControlInterface) : Prop where
  known : control.cmdState ≠ .getCmd
  writing : control.sWea = decide (control.cmdState = .memAdv)
  strobe : control.sFifoWrreq = true → control.cmdState = .waitCmd ∨ control.cmdState = .memRdCnt
  register : control.cmdState = .interpretCmd → control.bMemNotReg = .selReg
  block : control.cmdState = .memRdCnt → control.bMemNotReg = .selMem
  transfer : control.bMemNotReg = .selFifo ↔ control.cmdState = .fifoAdv
  counting : control.cmdState = .memRdCnt → 0 < control.counterV
  pulsing : control.cmdState = .pulseDelay → 0 < control.counterV
  moving : control.cmdState = .fifoAdv → 0 ≤ control.counterFIFO
  cleared : control.cmdState = .init → control.sConfigReg = 0 ∧ control.sAddrA = 0

theorem ControlInterface.Coherent.powerOn : ControlInterface.powerOn.Coherent := by
  constructor <;> simp [ControlInterface.powerOn, ControlInterface.asyncReset]

/-- A transition keeps the registers coherent. -/
theorem ControlInterface.Coherent.step {old next : ControlInterface} {ports : Ports}
    (coherent : old.Coherent) (step : old.Step ports next)
    (noStall : old.cmdState = .interpretCmd → readsMemory ports.cmdFifoQ = true →
      ports.sFifoFull = false)
    (nonzero : old.cmdState = .interpretCmd → readsMemory ports.cmdFifoQ = true →
      old.sMemioCnt ≠ 0) : next.Coherent := by
  obtain ⟨known, writing, strobe, register, block, transfer, counting, pulsing, moving,
    cleared⟩ := coherent
  cases step with
  | interpret state moved =>
    have selected := register state
    cases moved with
    | readMemory read memory room =>
      have positive : 0 < old.sMemioCnt.toNat :=
        BitVec.toNat_pos_of_ne_zero (nonzero state (readsMemory_of read memory))
      constructor <;> simp [ControlInterface.defaults, positive]
    | stall read memory full =>
      rw [noStall state (readsMemory_of read memory)] at full
      cases full
    | _ => constructor <;> simp [ControlInterface.defaults, selected]
  | memNext state more room =>
    have positive : 1 < old.counterV := by
      have counted := counting state
      omega
    constructor <;> simp [ControlInterface.defaults, *]
  | pulseHold state more =>
    have positive : 1 < old.counterV := by
      have counted := pulsing state
      omega
    constructor <;> simp [ControlInterface.defaults, *]
  | transferNext state visible room more =>
    have positive : 1 ≤ old.counterFIFO := by
      have counted := moving state
      omega
    constructor <;> simp [ControlInterface.defaults, *]
  | _ => constructor <;> simp [ControlInterface.defaults, *]

/-- The registered half of the memory input is free. -/
theorem ControlInterface.Coherent.latch {control : ControlInterface} (coherent : control.Coherent)
    (high : BitVec 16) : { control with sDinHigh := high }.Coherent := by
  cases coherent
  constructor <;> assumption

namespace System

variable (traffic : Traffic)

/-! ### The refinement mapping -/

/-- The state of the interpreter, with what is in progress counted as done. -/
def meaning (system : System) : Interpreter where
  config i := part 16 system.control.sConfigReg i
  count := if system.control.cmdState = .init then 1 else system.control.sMemioCnt
  address :=
    match system.control.cmdState with
    | .memAdv => system.control.sAddrA + 1
    | .memRdCnt => system.control.sAddrA + BitVec.ofNat 32 (system.control.counterV.toNat - 1)
    | _ => system.control.sAddrA
  low := system.control.sDinReg
  memory := system.written
  moved :=
    match system.control.cmdState with
    | .fifoAdv => system.dataFifo.popped + system.control.counterFIFO.toNat + 1
    | _ => system.dataFifo.popped

/-- The word whose strobe is registered. -/
def inFlight (system : System) : List (BitVec 36) :=
  if system.control.sFifoWrreq then
    match system.control.bMemNotReg with
    | .selMem => [outputWord system.memDout]
    | _ => [registerWord system.control.sRegOut]
  else []

/-- The words still to be written: the one in flight, and the rest of a memory block or of a data
FIFO transfer. -/
def owed (system : System) : List (BitVec 36) :=
  match system.control.cmdState with
  | .memRdCnt =>
    system.inFlight ++
      block system.memory system.control.sAddrA (system.control.counterV.toNat - 1)
  | .fifoAdv => segment traffic.data system.dataFifo.popped (system.control.counterFIFO.toNat + 1)
  | _ => system.inFlight

/-- The strobe is high and the output FIFO is full: the word in flight is not stored. -/
def drops (system : System) (tick : Tick) : Bool := system.control.sFifoWrreq && tick.sFifoFull

/-- The words put on the output at this edge, stored or not. -/
def emitted (system : System) (tick : Tick) : List (BitVec 36) :=
  system.stored traffic tick ++ if system.drops tick then system.inFlight else []

/-- A coherent command process that fetches what it interprets. -/
structure Coherent (system : System) : Prop extends Fetching system where
  control : system.control.Coherent

/-- The edges considered: no READ of address 20 meets a full FIFO or a count of 0. -/
def Regular (system : System) (tick : Tick) : Prop :=
  system.stalls traffic tick = false ∧ system.readsNothing traffic tick = false

instance (system : System) (tick : Tick) : Decidable (system.Regular traffic tick) :=
  inferInstanceAs (Decidable (_ ∧ _))

section Step

variable {traffic} {system : System} {tick : Tick}

theorem Coherent.powerOn (memory : BitVec 32 → BitVec 32) : (powerOn memory).Coherent :=
  ⟨.powerOn memory, .powerOn⟩

theorem Regular.room (regular : system.Regular traffic tick)
    (state : system.control.cmdState = .interpretCmd)
    (asked : readsMemory (system.cmdFifoQ traffic tick) = true) : tick.sFifoFull = false :=
  room_of_not_stalls regular.1 state asked

theorem Regular.nonzero (regular : system.Regular traffic tick)
    (state : system.control.cmdState = .interpretCmd)
    (asked : readsMemory (system.cmdFifoQ traffic tick) = true) :
    system.control.sMemioCnt ≠ 0 := by
  simpa [readsNothing, state, asked] using regular.2

theorem Coherent.clock (coherent : system.Coherent) (regular : system.Regular traffic tick) :
    (system.clock traffic tick).Coherent := by
  obtain ⟨next, step, control⟩ := system.clock_step traffic tick
  have kept := coherent.control.step step regular.room regular.nonzero
  exact ⟨coherent.toFetching.clock regular.1, control ▸ kept.latch _⟩

/-- Outside a transfer the data FIFO keeps its words. -/
theorem Coherent.dataFifo_popped (coherent : system.Coherent) (traffic : Traffic) (tick : Tick)
    (state : system.control.cmdState ≠ .fifoAdv) :
    (system.clock traffic tick).dataFifo.popped = system.dataFifo.popped := by
  refine Fwft.clock_popped_of_not_pops ?_
  cases selected : system.control.bMemNotReg with
  | selFifo => exact absurd (coherent.control.transfer.mp selected) state
  | selReg | selMem => simp [ControlInterface.dataFifoRdreq, selected, Fwft.pops]

/-- A word leaves the data FIFO when the transfer finds one and the output FIFO has room. -/
theorem Coherent.dataFifo_moved (coherent : system.Coherent) (traffic : Traffic)
    (state : system.control.cmdState = .fifoAdv) (visible : system.dataFifo.empty = false)
    (room : tick.sFifoFull = false) :
    (system.clock traffic tick).dataFifo.popped = system.dataFifo.popped + 1 := by
  refine Fwft.clock_popped_of_pops ?_
  simp [ControlInterface.dataFifoRdreq, coherent.control.transfer.mpr state, ports, Fwft.pops,
    visible, room]

theorem dataFifo_kept (traffic : Traffic)
    (blocked : system.dataFifo.empty = true ∨ tick.sFifoFull = true)
    (selected : system.control.bMemNotReg = .selFifo) :
    (system.clock traffic tick).dataFifo.popped = system.dataFifo.popped := by
  refine Fwft.clock_popped_of_not_pops ?_
  rcases blocked with empty | full
  · simp [Fwft.pops, empty]
  · simp [ControlInterface.dataFifoRdreq, selected, ports, Fwft.pops, full]

/-- Between commands and inside them the interpreter waits. -/
theorem Coherent.meaning_of_other (coherent : system.Coherent)
    (state : system.control.cmdState ≠ .interpretCmd) :
    (system.clock traffic tick).meaning = system.meaning := by
  obtain ⟨next, step, control⟩ := system.clock_step traffic tick
  have memory : (system.clock traffic tick).memory = system.written := rfl
  have popped := coherent.dataFifo_popped traffic tick
  have writing := coherent.control.writing
  unfold meaning
  cases step with
  | interpret before => exact absurd before state
  | others before => exact absurd before coherent.control.known
  | init before =>
    obtain ⟨config, address⟩ := coherent.control.cleared before
    simp [control, before, memory, popped, written, ControlInterface.defaults, config, address]
  | wait before | fetch before | memAdv before | memHold before | pulseDone before
  | pulseHold before =>
    simp [control, before, memory, popped, written, ControlInterface.defaults]
  | memDone before last =>
    simp [control, before, memory, popped, written, ControlInterface.defaults, last]
  | memNext before more room =>
    have positive := coherent.control.counting before
    obtain ⟨left, counted⟩ : ∃ left : Nat, system.control.counterV = left + 2 :=
      ⟨(system.control.counterV - 2).toNat, by omega⟩
    have address : system.control.sAddrA + BitVec.ofNat 32 (left + 1) =
        system.control.sAddrA + 1 + BitVec.ofNat 32 left := add_ofNat_succ _ left
    have remaining : system.control.counterV.toNat - 1 = left + 1 := by omega
    simp [control, before, memory, popped, written, ControlInterface.defaults, remaining, address]
  | transferDone before visible room last =>
    have moved := coherent.dataFifo_moved traffic before visible room
    simp [control, before, memory, moved, written, ControlInterface.defaults, last]
  | transferNext before visible room more =>
    have moved := coherent.dataFifo_moved traffic before visible room
    have positive := coherent.control.moving before
    simp [control, before, memory, moved, written, ControlInterface.defaults]
    omega
  | transferHold before blocked =>
    have kept := dataFifo_kept traffic blocked (coherent.control.transfer.mpr before)
    simp [control, before, memory, kept, written, ControlInterface.defaults]

/-- A READ of a register changes nothing. -/
theorem step_readRegister {state : Interpreter} {word : BitVec 32}
    (read : readNotWrite word = true) (register : target (addressI word) ≠ .memHigh) :
    state.step word = state := by
  rw [Interpreter.step, read, if_pos rfl]
  cases selected : target (addressI word) with
  | memHigh => exact absurd selected register
  | _ => rfl

/-- A READ of a register answers with its value. -/
theorem reply_readRegister (data : Nat → BitVec 32) (state : Interpreter) (given : Given)
    (read : readNotWrite given.word = true) (register : target (addressI given.word) ≠ .memHigh) :
    state.reply data given = [registerWord (state.readValue given)] := by
  rw [Interpreter.reply, read, if_pos rfl]
  cases selected : target (addressI given.word) with
  | memHigh => exact absurd selected register
  | _ => rfl

/-- Assigning one of the configuration registers is an update of the row. -/
theorem part_update (register : BitVec 512) (i : Fin 32) (value : BitVec 16) :
    (fun j : Fin 32 => part 16 (setPart register i value) j) =
      Function.update (fun j : Fin 32 => part 16 register j) i value := by
  funext j
  by_cases same : j = i
  · rw [same, Function.update_self]
    exact part_setPart register value (by omega)
  · rw [Function.update_of_ne same]
    exact part_setPart_of_ne register value fun equal => same (Fin.ext equal)

/-- The edge that interprets a command is a step of the interpreter. -/
theorem Coherent.meaning_of_interpret (coherent : system.Coherent)
    (regular : system.Regular traffic tick) (state : system.control.cmdState = .interpretCmd) :
    (system.clock traffic tick).meaning =
      system.meaning.step (traffic.commands system.cmdFifo.popped) := by
  obtain ⟨next, moved, control⟩ := coherent.toFetching.interpretation traffic tick state
  have sameQuestion := coherent.toFetching.readsMemory_eq traffic tick state
  have memory : (system.clock traffic tick).memory = system.written := rfl
  have popped := coherent.dataFifo_popped traffic tick (by simp [state])
  have writing := coherent.control.writing
  cases moved with
  | readRegister read register =>
    rw [step_readRegister read register]
    simp [meaning, control, state, memory, popped, written, ControlInterface.defaults, writing]
  | stall read asked full =>
    have room := regular.room state (sameQuestion.trans (readsMemory_of read asked))
    exact absurd room (ne_false_of_eq_true full)
  | readMemory read asked room =>
    have nonzero := regular.nonzero state (sameQuestion.trans (readsMemory_of read asked))
    obtain ⟨left, counted⟩ : ∃ left, system.control.sMemioCnt.toNat = left + 1 :=
      Nat.exists_eq_add_one.mpr (BitVec.toNat_pos_of_ne_zero nonzero)
    have count : system.control.sMemioCnt.setWidth 32 = BitVec.ofNat 32 (left + 1) := by
      rw [← counted]
      exact (BitVec.ofNat_toNat 32 system.control.sMemioCnt).symm
    have address : system.control.sAddrA + BitVec.ofNat 32 (left + 1) =
        system.control.sAddrA + 1 + BitVec.ofNat 32 left := add_ofNat_succ _ left
    simp [meaning, control, state, memory, popped, written, ControlInterface.defaults, writing,
      Interpreter.step, read, asked, counted, count, address]
  | writeAddrLow notRead selected =>
    have low (data : BitVec 16) : setPart system.control.sAddrA 0 data =
      system.control.sAddrA.extractLsb' 16 16 ++ data := setPart_zero system.control.sAddrA data
    simp [meaning, control, state, memory, popped, written, ControlInterface.defaults, writing,
      Interpreter.step, notRead, selected, low]
  | writeAddrHigh notRead selected =>
    have high (data : BitVec 16) : setPart system.control.sAddrA 1 data =
      data ++ system.control.sAddrA.extractLsb' 0 16 := setPart_one system.control.sAddrA data
    simp [meaning, control, state, memory, popped, written, ControlInterface.defaults, writing,
      Interpreter.step, notRead, selected, high]
  | writeMemHigh notRead selected =>
    simp [meaning, control, state, memory, popped, written, ControlInterface.defaults, writing,
      Interpreter.step, notRead, selected, ControlInterface.sDinA]
  | writeOthers notRead selected =>
    rcases selected with ⟨i, selected⟩ | selected <;>
      simp [meaning, control, state, memory, popped, written, ControlInterface.defaults, writing,
        Interpreter.step, notRead, selected]
  | writeConfig _ notRead selected | writePulse notRead selected | writeCount notRead selected
  | writeMemLow notRead selected | writeDataFifo notRead selected =>
    simp [meaning, control, state, memory, popped, written, ControlInterface.defaults, writing,
      Interpreter.step, notRead, selected, part_update]

/-- Outside a transfer the word in flight is put on the output. -/
theorem Coherent.emitted_of_other (coherent : system.Coherent) (traffic : Traffic) (tick : Tick)
    (state : system.control.cmdState ≠ .fifoAdv) :
    system.emitted traffic tick = system.inFlight := by
  unfold emitted stored offered drops inFlight
  cases selected : system.control.bMemNotReg with
  | selFifo => exact absurd (coherent.control.transfer.mp selected) state
  | selReg | selMem =>
    cases strobe : system.control.sFifoWrreq <;> cases full : tick.sFifoFull <;>
      simp [ControlInterface.sFifoWren, ControlInterface.sFifoD, selected, strobe, ports,
        outputWord, registerWord]

/-- In a transfer a word is put on the output when it leaves the data FIFO. -/
theorem Coherent.emitted_of_transfer (coherent : system.Coherent) (traffic : Traffic) (tick : Tick)
    (state : system.control.cmdState = .fifoAdv) :
    system.emitted traffic tick =
      if system.dataFifo.empty = false ∧ tick.sFifoFull = false then
        [outputWord (traffic.data system.dataFifo.popped)] else [] := by
  have selected := coherent.control.transfer.mpr state
  have strobe : system.control.sFifoWrreq = false := by
    refine Bool.eq_false_iff.mpr fun high => ?_
    rcases coherent.control.strobe high with other | other <;> simp [state] at other
  unfold emitted stored offered drops
  cases empty : system.dataFifo.empty with
  | true => simp [ControlInterface.sFifoWren, selected, strobe, ports, empty]
  | false =>
    have visible : system.dataFifoQ traffic tick = traffic.data system.dataFifo.popped :=
      Fwft.dout_visible _ _ empty
    cases full : tick.sFifoFull <;>
      simp [ControlInterface.sFifoWren, ControlInterface.sFifoD, selected, strobe, ports, empty,
        outputWord, visible]

/-- No word is in flight but between commands and inside a memory block. -/
theorem Coherent.inFlight_of_other (coherent : system.Coherent)
    (notWait : system.control.cmdState ≠ .waitCmd)
    (notBlock : system.control.cmdState ≠ .memRdCnt) :
    system.inFlight = [] := by
  have strobe : system.control.sFifoWrreq = false :=
    Bool.eq_false_iff.mpr fun high => (coherent.control.strobe high).elim notWait notBlock
  rw [inFlight, strobe, if_neg Bool.false_ne_true]

/-- The value a READ of a register returns is the interpreter's. -/
theorem Coherent.readValue_eq (coherent : system.Coherent) (traffic : Traffic) (tick : Tick)
    (state : system.control.cmdState = .interpretCmd) :
    system.control.readValue (system.ports traffic tick) =
      system.meaning.readValue
        ⟨traffic.commands system.cmdFifo.popped, tick.statusReg⟩ := by
  have word : (system.ports traffic tick).cmdFifoQ =
      0#4 ++ traffic.commands system.cmdFifo.popped :=
    coherent.toFetching.cmdFifoQ_eq state
  unfold ControlInterface.readValue Interpreter.readValue
  rw [word, addressI_append]
  cases target (addressI (traffic.commands system.cmdFifo.popped)) <;>
    simp [meaning, state, part, ports]

/-- Between commands and inside them, what is put on the output is no longer owed. -/
theorem Coherent.owed_of_other (coherent : system.Coherent)
    (state : system.control.cmdState ≠ .interpretCmd) :
    system.emitted traffic tick ++ (system.clock traffic tick).owed traffic =
      system.owed traffic := by
  obtain ⟨next, step, control⟩ := system.clock_step traffic tick
  have memory : (system.clock traffic tick).memory = system.written := rfl
  have emitted := coherent.emitted_of_other traffic tick
  have writing := coherent.control.writing
  unfold owed
  cases step with
  | interpret before => exact absurd before state
  | others before => exact absurd before coherent.control.known
  | init before | wait before | fetch before | memAdv before | pulseDone before
  | pulseHold before =>
    simp [control, before, emitted, inFlight, ControlInterface.defaults]
  | memDone before last =>
    simp [control, before, emitted, inFlight, ControlInterface.defaults, last, block_zero]
  | memHold before more full =>
    simp [control, before, emitted, inFlight, ControlInterface.defaults, memory, written, writing]
  | memNext before more room =>
    have positive := coherent.control.counting before
    obtain ⟨left, counted⟩ : ∃ left : Nat, system.control.counterV = left + 2 :=
      ⟨(system.control.counterV - 2).toNat, by omega⟩
    have remaining : system.control.counterV.toNat - 1 = left + 1 := by omega
    have selected := coherent.control.block before
    have read : (system.clock traffic tick).memDout = system.memory system.control.sAddrA := by
      simp [System.clock, writing, before]
    simp [control, before, emitted, inFlight, ControlInterface.defaults, memory, written, writing,
      remaining, block_succ, selected, read]
  | transferDone before visible room last =>
    rw [coherent.emitted_of_transfer traffic tick before, if_pos ⟨visible, room⟩]
    simp [control, before, inFlight, ControlInterface.defaults, last, segment_succ, segment_zero]
  | transferNext before visible room more =>
    have moved := coherent.dataFifo_moved traffic before visible room
    have positive := coherent.control.moving before
    obtain ⟨left, counted⟩ : ∃ left : Nat, system.control.counterFIFO = left + 1 :=
      ⟨(system.control.counterFIFO - 1).toNat, by omega⟩
    have remaining : system.control.counterFIFO.toNat = left + 1 := by omega
    rw [coherent.emitted_of_transfer traffic tick before, if_pos ⟨visible, room⟩]
    simp [control, before, moved, ControlInterface.defaults, remaining,
      segment_succ traffic.data _ (left + 1)]
  | transferHold before blocked =>
    have kept := dataFifo_kept traffic blocked (coherent.control.transfer.mpr before)
    have blocked : ¬(system.dataFifo.empty = false ∧ tick.sFifoFull = false) := by
      rintro ⟨visible, room⟩
      rcases blocked with empty | full
      · exact absurd visible (ne_false_of_eq_true empty)
      · exact absurd room (ne_false_of_eq_true full)
    rw [coherent.emitted_of_transfer traffic tick before, if_neg blocked]
    simp [control, before, kept, ControlInterface.defaults]

/-- The edge that interprets a command owes the answer to it. -/
theorem Coherent.owed_of_interpret (coherent : system.Coherent)
    (regular : system.Regular traffic tick) (state : system.control.cmdState = .interpretCmd) :
    (system.clock traffic tick).owed traffic =
      system.meaning.reply traffic.data
        ⟨traffic.commands system.cmdFifo.popped, tick.statusReg⟩ := by
  obtain ⟨next, moved, control⟩ := coherent.toFetching.interpretation traffic tick state
  have sameQuestion := coherent.toFetching.readsMemory_eq traffic tick state
  have memory : (system.clock traffic tick).memory = system.written := rfl
  have popped := coherent.dataFifo_popped traffic tick (by simp [state])
  have writing := coherent.control.writing
  unfold owed
  cases moved with
  | readRegister read register =>
    have value := coherent.readValue_eq traffic tick state
    have selected := coherent.control.register state
    rw [reply_readRegister traffic.data system.meaning ⟨_, tick.statusReg⟩ read register, ← value]
    simp [control, inFlight, ControlInterface.defaults, selected]
  | stall read asked full =>
    have room := regular.room state (sameQuestion.trans (readsMemory_of read asked))
    exact absurd room (ne_false_of_eq_true full)
  | readMemory read asked room =>
    have nonzero := regular.nonzero state (sameQuestion.trans (readsMemory_of read asked))
    obtain ⟨left, counted⟩ : ∃ left, system.control.sMemioCnt.toNat = left + 1 :=
      Nat.exists_eq_add_one.mpr (BitVec.toNat_pos_of_ne_zero nonzero)
    have fetched : (system.clock traffic tick).memDout = system.memory system.control.sAddrA := by
      simp [System.clock, writing, state]
    simp [control, inFlight, ControlInterface.defaults, Interpreter.reply, read, asked, meaning,
      state, counted, block_succ, fetched, memory, written, writing]
  | writeDataFifo notRead selected =>
    simp [control, ControlInterface.defaults, Interpreter.reply, notRead, selected, popped,
      meaning, state]
  | writeOthers notRead selected =>
    rcases selected with ⟨i, selected⟩ | selected <;>
      simp [control, inFlight, ControlInterface.defaults, Interpreter.reply, notRead, selected]
  | writeConfig _ notRead selected | writePulse notRead selected | writeCount notRead selected
  | writeAddrLow notRead selected | writeAddrHigh notRead selected
  | writeMemLow notRead selected | writeMemHigh notRead selected =>
    simp [control, inFlight, ControlInterface.defaults, Interpreter.reply, notRead, selected]

end Step

/-- The interpreter starts where reset leaves `control_interface`. -/
theorem meaning_powerOn (memory : BitVec 32 → BitVec 32) :
    (powerOn memory).meaning = Interpreter.start memory := by
  have config : (fun i : Fin 32 => part 16 (0 : BitVec 512) i) = fun _ => 0 := by
    funext i
    simp [part]
  show (⟨_, _, _, _, _, _⟩ : Interpreter) = _
  rw [Interpreter.start, ← config]
  rfl

/-- `control_interface`, with its FIFOs and its memory, refines the interpreter. -/
def refinement :
    Refinement (clock traffic) (fun state given => Interpreter.step state (Given.word given))
      (Interpreter.reply traffic.data) where
  holds := Coherent
  admits system tick := system.Regular traffic tick
  taken := received traffic
  emitted := emitted traffic
  meaning := meaning
  owed := owed traffic
  preserved _ _ coherent regular := coherent.clock regular
  commutes system tick coherent regular := by
    by_cases state : system.control.cmdState = .interpretCmd
    · rw [coherent.toFetching.received_of_interpret state,
        coherent.meaning_of_interpret regular state,
        run_cons, run_nil]
    · rw [coherent.toFetching.received_of_other state, coherent.meaning_of_other state, run_nil]
  replies system tick coherent regular := by
    by_cases state : system.control.cmdState = .interpretCmd
    · have nothing : system.emitted traffic tick = [] ∧ system.owed traffic = [] := by
        have nothing : system.inFlight = [] :=
          coherent.inFlight_of_other (by simp [state]) (by simp [state])
        rw [coherent.emitted_of_other traffic tick (by simp [state]), owed, state]
        exact ⟨nothing, nothing⟩
      rw [coherent.toFetching.received_of_interpret state,
        coherent.owed_of_interpret regular state, nothing.1,
        nothing.2, log_cons, log_nil, List.append_nil]
    · rw [coherent.toFetching.received_of_other state, coherent.owed_of_other state, log_nil,
        List.append_nil]

end System

/-! ### Runs from reset -/

section Runs

variable {State Input : Type*} {step : State → Input → State} {data : Nat → BitVec 32}
  {memory : BitVec 32 → BitVec 32} {state : State} {inputs : List Input}

/-- A refinement that starts like the interpreter follows it on the commands taken. -/
theorem meaning_of_refinement
    (refinement : Refinement step (fun state given => Interpreter.step state (Given.word given))
      (Interpreter.reply data))
    (holds : refinement.holds state) (start : refinement.meaning state = .start memory)
    (along : Along step refinement.admits state inputs) :
    refinement.meaning (run step state inputs) =
      Interpreter.interpret memory ((log step refinement.taken state inputs).map Given.word) := by
  rw [refinement.run_meaning holds along, start, Interpreter.interpret_map]

/-- What it puts on the output and still owes is the interpreter's answers. -/
theorem answers_of_refinement
    (refinement : Refinement step (fun state given => Interpreter.step state (Given.word given))
      (Interpreter.reply data))
    (holds : refinement.holds state) (start : refinement.meaning state = .start memory)
    (settled : refinement.owed state = []) (along : Along step refinement.admits state inputs) :
    log step refinement.emitted state inputs ++ refinement.owed (run step state inputs) =
      Interpreter.answers data memory (log step refinement.taken state inputs) := by
  rw [refinement.log_replies holds along, start, settled, List.nil_append, Interpreter.answers]

end Runs

end K71GbE.Control
