/-
This file proves that `control_interface` consumes every list of command words,
and that it has then done what the sequential interpreter does with the list.

The output FIFO always has room here. The command words arrive at any clocks, in
any portions, and the data FIFO supplies at some time the words the commands ask
for. Every command is then finished: the command process waits only for a
command word, or for a word of the data FIFO, and otherwise a counter runs down.
-/

import K71GbE.Clocked.Progress
import K71GbE.Control.Refinement
import Mathlib.Data.Prod.Lex

namespace K71GbE.Control

open Clocked

/-- The words of a list, and those of the data FIFO. -/
def Traffic.ofList (commands : List (BitVec 32)) (data : Nat → BitVec 32) : Traffic where
  commands k := commands.getD k 0
  data := data

/-- The command words that have arrived before edge `n`. -/
def cmdArrivals (ticks : Nat → Tick) (n : Nat) : Nat := ((upTo ticks n).map Tick.cmdArriving).sum

/-- The data words that have arrived before edge `n`. -/
def dataArrivals (ticks : Nat → Tick) (n : Nat) : Nat := ((upTo ticks n).map Tick.dataArriving).sum

/-- A schedule that delivers a list of `length` command words and at least `needed` data words, and
never finds the output FIFO full. -/
structure Serves (ticks : Nat → Tick) (length needed : Nat) : Prop where
  room : ∀ n, (ticks n).sFifoFull = false
  within : ∀ n, cmdArrivals ticks n ≤ length
  arrives : ∃ n, cmdArrivals ticks n = length
  supplied : ∃ n, needed ≤ dataArrivals ticks n

theorem cmdArrivals_succ (ticks : Nat → Tick) (n : Nat) :
    cmdArrivals ticks (n + 1) = cmdArrivals ticks n + (ticks n).cmdArriving := by
  simp [cmdArrivals, upTo_succ]

theorem dataArrivals_succ (ticks : Nat → Tick) (n : Nat) :
    dataArrivals ticks (n + 1) = dataArrivals ticks n + (ticks n).dataArriving := by
  simp [dataArrivals, upTo_succ]

theorem cmdArrivals_mono (ticks : Nat → Tick) : Monotone (cmdArrivals ticks) :=
  monotone_nat_of_le_succ fun n => by rw [cmdArrivals_succ]; exact Nat.le_add_right _ _

theorem dataArrivals_mono (ticks : Nat → Tick) : Monotone (dataArrivals ticks) :=
  monotone_nat_of_le_succ fun n => by rw [dataArrivals_succ]; exact Nat.le_add_right _ _

namespace System

section Runs

variable (commands : List (BitVec 32)) (data : Nat → BitVec 32) (memory : BitVec 32 → BitVec 32)
  (ticks : Nat → Tick) (n : Nat)

/-- The system before edge `n`. -/
def before : System := run (clock (.ofList commands data)) (powerOn memory) (upTo ticks n)

/-- The commands popped before edge `n`. -/
def given : List Given :=
  log (clock (.ofList commands data)) (received (.ofList commands data)) (powerOn memory)
    (upTo ticks n)

/-- The words written to the output FIFO before edge `n`. -/
def output : List (BitVec 36) :=
  log (clock (.ofList commands data)) (stored (.ofList commands data)) (powerOn memory)
    (upTo ticks n)

theorem before_succ :
    before commands data memory ticks (n + 1) =
      (before commands data memory ticks n).clock (.ofList commands data) (ticks n) := by
  rw [before, upTo_succ, run_concat, before]

theorem cmdFifo_arrived :
    (before commands data memory ticks n).cmdFifo.arrived = cmdArrivals ticks n := by
  induction n with
  | zero => rfl
  | succ n inductionHypothesis =>
    rw [before_succ, cmdArrivals_succ, ← inductionHypothesis]
    rfl

theorem dataFifo_arrived :
    (before commands data memory ticks n).dataFifo.arrived = dataArrivals ticks n := by
  induction n with
  | zero => rfl
  | succ n inductionHypothesis =>
    rw [before_succ, dataArrivals_succ, ← inductionHypothesis]
    rfl

/-- The commands popped are the first words of the command FIFO. -/
theorem given_words
    (along : Along (clock (.ofList commands data))
      (fun system tick => system.Regular (.ofList commands data) tick) (powerOn memory)
      (upTo ticks n)) :
    (given commands data memory ticks n).map Given.word =
      (List.range (before commands data memory ticks n).cmdFifo.popped).map
        (Traffic.ofList commands data).commands :=
  (received_words (along.mono fun _ _ regular => regular.1)).2

end Runs

/-! ### Steps towards the next command -/

section Steps

variable {traffic : Traffic} {system : System} {tick : Tick}

/-- How far the command process is from interpreting the next command, waits apart. -/
def phase (system : System) : Nat :=
  match system.control.cmdState with
  | .interpretCmd => 0
  | .waitCmd => 1
  | .memRdCnt | .pulseDelay => system.control.counterV.toNat + 1
  | .fifoAdv => system.control.counterFIFO.toNat + 2
  | _ => 2

/-- Where nothing is waited for, the next command comes nearer. -/
theorem Coherent.phase_lt (coherent : system.Coherent) (room : tick.sFifoFull = false)
    (notWait : system.control.cmdState ≠ .waitCmd)
    (notInterpret : system.control.cmdState ≠ .interpretCmd)
    (notTransfer : system.control.cmdState ≠ .fifoAdv) :
    (system.clock traffic tick).phase < system.phase := by
  obtain ⟨next, step, control⟩ := system.clock_step traffic tick
  unfold phase
  cases step with
  | wait state | fetch state => exact absurd state notWait
  | interpret state => exact absurd state notInterpret
  | transferDone state | transferNext state | transferHold state => exact absurd state notTransfer
  | others state => exact absurd state coherent.control.known
  | memHold state more full => exact absurd room (ne_false_of_eq_true full)
  | init state | memAdv state => simp [control, state]
  | memDone state last | pulseDone state last => simp [control, state, last]
  | memNext state more =>
    have counted := coherent.control.counting state
    simp [control, state, ControlInterface.defaults]
    omega
  | pulseHold state more =>
    have counted := coherent.control.pulsing state
    simp [control, state, ControlInterface.defaults]
    omega

/-- A word on the output of the command FIFO is fetched. -/
theorem clock_of_visible (state : system.control.cmdState = .waitCmd)
    (visible : system.cmdFifo.empty = false) :
    (system.clock traffic tick).control.cmdState = .interpretCmd := by
  rw [clock_control, ControlInterface.cmdIF, state]
  simp [ports, visible]

/-- Without one the command process waits, with no word in flight. -/
theorem clock_of_empty (traffic : Traffic) (tick : Tick)
    (state : system.control.cmdState = .waitCmd) (empty : system.cmdFifo.empty = true) :
    (system.clock traffic tick).control.cmdState = .waitCmd ∧
      (system.clock traffic tick).control.sFifoWrreq = false := by
  rw [clock_control, ControlInterface.cmdIF, state]
  simp [ports, empty, ControlInterface.defaults, state]

/-- A word of the data FIFO brings the transfer nearer to its end. -/
theorem Coherent.phase_lt_of_transfer (coherent : system.Coherent) (room : tick.sFifoFull = false)
    (state : system.control.cmdState = .fifoAdv) (visible : system.dataFifo.empty = false) :
    (system.clock traffic tick).phase < system.phase := by
  have counted := coherent.control.moving state
  unfold phase
  rw [clock_control, ControlInterface.cmdIF, state]
  by_cases last : system.control.counterFIFO = 0
  · simp [ports, visible, room, ControlInterface.defaults, last]
  · simp [ports, visible, room, ControlInterface.defaults, last]
    omega

/-- Without one the transfer waits. -/
theorem clock_of_transfer_empty (coherent : system.Coherent)
    (state : system.control.cmdState = .fifoAdv) (empty : system.dataFifo.empty = true) :
    (system.clock traffic tick).control.cmdState = .fifoAdv ∧
      (system.clock traffic tick).control.counterFIFO = system.control.counterFIFO ∧
      (system.clock traffic tick).dataFifo.popped = system.dataFifo.popped := by
  refine ⟨?_, ?_, dataFifo_kept traffic (Or.inl empty) (coherent.control.transfer.mpr state)⟩ <;>
  · rw [clock_control, ControlInterface.cmdIF, state]
    simp [ports, empty, ControlInterface.defaults]

end Steps

/-! ### A list of commands -/

section Commands

variable {commands : List (BitVec 32)} {data : Nat → BitVec 32} {memory : BitVec 32 → BitVec 32}
  {ticks : Nat → Tick} {n : Nat}

/-- The first words of a list, by their positions. -/
theorem map_getD_range (data : Nat → BitVec 32) {length : Nat} (within : length ≤ commands.length) :
    (List.range length).map (Traffic.ofList commands data).commands = commands.take length := by
  refine List.ext_getElem (by simp [within]) fun k below inside => ?_
  have bound : k < commands.length := by
    rw [List.length_map, List.length_range] at below
    exact lt_of_lt_of_le below within
  simp [Traffic.ofList, bound]

/-- Every command word is popped and interpreted, and no word is in flight. -/
structure Consumed (system : System) (length : Nat) : Prop where
  waiting : system.control.cmdState = .waitCmd
  popped : system.cmdFifo.popped = length
  quiet : system.control.sFifoWrreq = false

/-- What is left before edge `n` is what the interpreter leaves after the list of commands. -/
structure Interpreted (commands : List (BitVec 32)) (data : Nat → BitVec 32)
    (memory : BitVec 32 → BitVec 32) (ticks : Nat → Tick) (n : Nat) : Prop where
  words : (given commands data memory ticks n).map Given.word = commands
  answers : output commands data memory ticks n =
    Interpreter.answers data memory (given commands data memory ticks n)
  config : ∀ i : Fin 32, part 16 (before commands data memory ticks n).control.sConfigReg i =
    (Interpreter.interpret memory commands).config i
  count : (before commands data memory ticks n).control.sMemioCnt =
    (Interpreter.interpret memory commands).count
  address : (before commands data memory ticks n).control.sAddrA =
    (Interpreter.interpret memory commands).address
  memory : (before commands data memory ticks n).memory =
    (Interpreter.interpret memory commands).memory

/-- Where a run stands in a list of commands. -/
structure Standing (commands : List (BitVec 32)) (memory : BitVec 32 → BitVec 32)
    (system : System) : Prop where
  coherent : system.Coherent
  within : system.cmdFifo.arrived ≤ commands.length
  meaning : system.meaning = Interpreter.interpret memory (commands.take system.cmdFifo.popped)

theorem Standing.popped_le {system : System} (standing : system.Standing commands memory) :
    system.cmdFifo.popped ≤ commands.length :=
  system.cmdFifo.popped_le.trans standing.within

/-- The commands not yet popped. -/
theorem Standing.split {system : System} (standing : system.Standing commands memory)
    (state : system.control.cmdState = .interpretCmd) :
    ∃ later, commands = commands.take system.cmdFifo.popped ++
      commands.getD system.cmdFifo.popped 0 :: later := by
  have bound : system.cmdFifo.popped < commands.length :=
    lt_of_lt_of_le (Fwft.popped_lt (standing.coherent.visible state)) standing.within
  refine ⟨commands.drop (system.cmdFifo.popped + 1), ?_⟩
  have word : commands.getD system.cmdFifo.popped 0 = commands[system.cmdFifo.popped] := by
    simp [bound]
  rw [word, ← List.drop_eq_getElem_cons bound, List.take_append_drop]

/-- A count of 0 the list never asks for is never met. -/
theorem Standing.readsNothing {system : System} (standing : system.Standing commands memory)
    (nonzero : Along Interpreter.step (fun state word => ¬state.ReadsNothing word)
      (Interpreter.start memory) commands) (tick : Tick) :
    system.readsNothing (.ofList commands data) tick = false := by
  refine Bool.eq_false_iff.mpr fun nothing => ?_
  simp only [System.readsNothing, Bool.and_eq_true, beq_iff_eq] at nothing
  obtain ⟨state, asked, zero⟩ := nothing
  rw [standing.coherent.cmdFifoQ_eq state, readsMemory_append] at asked
  obtain ⟨later, split⟩ := standing.split state
  have count : system.meaning.count = 0 := by
    rw [System.meaning, state]
    exact zero
  rw [standing.meaning] at count
  exact along_iff_steps.mp nonzero _ _ _ split ⟨asked, count⟩

section Served

variable (data)
  (serves : Serves ticks commands.length (Interpreter.interpret memory commands).moved)
  (nonzero : Along Interpreter.step (fun state word => ¬state.ReadsNothing word)
    (Interpreter.start memory) commands)

include serves

/-- Every command word comes. -/
theorem exists_cmdFifo_arrived (n : Nat)
    (more : (before commands data memory ticks n).cmdFifo.popped < commands.length) :
    ∃ m, n ≤ m ∧ (before commands data memory ticks n).cmdFifo.popped <
      (before commands data memory ticks m).cmdFifo.arrived := by
  obtain ⟨all, arrived⟩ := serves.arrives
  refine ⟨max n all, le_max_left _ _, ?_⟩
  calc (before commands data memory ticks n).cmdFifo.popped
      < cmdArrivals ticks all := arrived.symm ▸ more
    _ ≤ cmdArrivals ticks (max n all) := cmdArrivals_mono ticks (le_max_right _ _)
    _ = _ := (cmdFifo_arrived _ _ _ _ _).symm

theorem standing_of_along
    (along : Along (clock (.ofList commands data))
      (fun system tick => system.Regular (.ofList commands data) tick) (powerOn memory)
      (upTo ticks n)) :
    (before commands data memory ticks n).Standing commands memory := by
  have words := given_words commands data memory ticks n along
  have within : (before commands data memory ticks n).cmdFifo.arrived ≤
      commands.length := by
    rw [cmdFifo_arrived]
    exact serves.within n
  have popped := (before commands data memory ticks n).cmdFifo.popped_le
  refine ⟨(refinement (.ofList commands data)).run_holds
    (show (refinement (.ofList commands data)).holds (powerOn memory) from
      Coherent.powerOn memory) along, within, ?_⟩
  rw [← map_getD_range data (popped.trans within), ← words]
  exact meaning_of_refinement (refinement (.ofList commands data)) (Coherent.powerOn memory)
    (meaning_powerOn memory) along

include nonzero

/-- Every clock is a regular one. -/
theorem regular_before (n : Nat) :
    Along (clock (.ofList commands data))
      (fun system tick => system.Regular (.ofList commands data) tick) (powerOn memory)
      (upTo ticks n) := by
  refine along_upTo (fun m along => ?_) n
  have standing := standing_of_along data serves along
  exact ⟨by simp [stalls, serves.room m], standing.readsNothing nonzero (ticks m)⟩

theorem standing_before (n : Nat) :
    (before commands data memory ticks n).Standing commands memory :=
  standing_of_along data serves (regular_before data serves nonzero n)

/-- What the data FIFO is asked for, it supplies. -/
theorem exists_dataFifo_arrived (n : Nat)
    (state : (before commands data memory ticks n).control.cmdState = .fifoAdv) :
    ∃ m, n ≤ m ∧ (before commands data memory ticks n).dataFifo.popped <
      (before commands data memory ticks m).dataFifo.arrived := by
  obtain ⟨enough, supplied⟩ := serves.supplied
  have standing := standing_before data serves nonzero n
  refine ⟨max n enough, le_max_left _ _, ?_⟩
  have asked : (before commands data memory ticks n).dataFifo.popped <
      (before commands data memory ticks n).meaning.moved := by
    rw [System.meaning, state]
    exact Nat.lt_succ_of_le (Nat.le_add_right _ _)
  have owed : (before commands data memory ticks n).meaning.moved ≤
      (Interpreter.interpret memory commands).moved := by
    rw [standing.meaning]
    conv_rhs => rw [← List.take_append_drop
      (before commands data memory ticks n).cmdFifo.popped commands,
      Interpreter.interpret, run_append]
    exact Interpreter.moved_le_run _ _
  calc (before commands data memory ticks n).dataFifo.popped
      < (Interpreter.interpret memory commands).moved := lt_of_lt_of_le asked owed
    _ ≤ dataArrivals ticks enough := supplied
    _ ≤ dataArrivals ticks (max n enough) := dataArrivals_mono ticks (le_max_right _ _)
    _ = _ := (dataFifo_arrived _ _ _ _ _).symm

/-- The command process waits for a command word until it is there. -/
theorem exists_fetch (n : Nat)
    (state : (before commands data memory ticks n).control.cmdState = .waitCmd)
    (more : (before commands data memory ticks n).cmdFifo.popped < commands.length) :
    ∃ m, (before commands data memory ticks m).control.cmdState = .waitCmd ∧
      (before commands data memory ticks m).cmdFifo.popped =
        (before commands data memory ticks n).cmdFifo.popped ∧
      (before commands data memory ticks m).cmdFifo.empty = false := by
  obtain ⟨m, _, ⟨waiting, kept⟩, arrived⟩ := exists_waiting_event
    (fun m => (before commands data memory ticks m).control.cmdState = .waitCmd ∧
      (before commands data memory ticks m).cmdFifo.popped =
        (before commands data memory ticks n).cmdFifo.popped)
    ⟨state, rfl⟩ (fun m holds notYet => by
      have empty := Fwft.empty_of_le (holds.2.symm ▸ Nat.le_of_not_lt notYet)
      have fetching := (standing_before data serves nonzero m).coherent.toFetching
      rw [before_succ, fetching.clock_popped, if_neg (by simp [holds.1])]
      exact ⟨(clock_of_empty _ _ holds.1 empty).1, holds.2⟩)
    (exists_cmdFifo_arrived data serves n more)
  exact ⟨m, waiting, kept, Fwft.visible_of_lt (kept.symm ▸ arrived)⟩

/-- A transfer waits for a word of the data FIFO until it is there. -/
theorem exists_moved (n : Nat)
    (state : (before commands data memory ticks n).control.cmdState = .fifoAdv) :
    ∃ m, (before commands data memory ticks m).control.cmdState = .fifoAdv ∧
      (before commands data memory ticks m).cmdFifo.popped =
        (before commands data memory ticks n).cmdFifo.popped ∧
      (before commands data memory ticks m).phase =
        (before commands data memory ticks n).phase ∧
      (before commands data memory ticks m).dataFifo.empty = false := by
  obtain ⟨m, _, ⟨waiting, kept, counter, moved⟩, arrived⟩ := exists_waiting_event
    (fun m => (before commands data memory ticks m).control.cmdState = .fifoAdv ∧
      (before commands data memory ticks m).cmdFifo.popped =
        (before commands data memory ticks n).cmdFifo.popped ∧
      (before commands data memory ticks m).control.counterFIFO =
        (before commands data memory ticks n).control.counterFIFO ∧
      (before commands data memory ticks m).dataFifo.popped =
        (before commands data memory ticks n).dataFifo.popped)
    ⟨state, rfl, rfl, rfl⟩ (fun m holds notYet => by
      obtain ⟨waiting, kept, counter, moved⟩ := holds
      have empty := Fwft.empty_of_le (moved.symm ▸ Nat.le_of_not_lt notYet)
      have coherent := (standing_before data serves nonzero m).coherent
      obtain ⟨stays, sameCounter, sameData⟩ := clock_of_transfer_empty coherent waiting empty
      rw [before_succ, coherent.clock_popped, if_neg (by simp [waiting]), sameCounter, sameData]
      exact ⟨stays, kept, counter, moved⟩)
    (exists_dataFifo_arrived data serves nonzero n state)
  refine ⟨m, waiting, kept, ?_, Fwft.visible_of_lt (moved.symm ▸ arrived)⟩
  rw [phase, phase, waiting, state, counter]

/-- The commands left, and how far the next one is. -/
def remaining (commands : List (BitVec 32)) (system : System) : Nat ×ₗ Nat :=
  toLex (commands.length - system.cmdFifo.popped, system.phase)

/-- From every moment before the end the command process gets nearer to it. -/
theorem exists_remaining_lt (n : Nat)
    (before_end : ¬((before commands data memory ticks n).control.cmdState = .waitCmd ∧
      (before commands data memory ticks n).cmdFifo.popped = commands.length)) :
    ∃ m, remaining commands (before commands data memory ticks m) <
      remaining commands (before commands data memory ticks n) := by
  have standing (m : Nat) := standing_before data serves nonzero m
  have popped (m : Nat) := (standing m).coherent.clock_popped (.ofList commands data) (ticks m)
  by_cases waiting : (before commands data memory ticks n).control.cmdState = .waitCmd
  · have more : (before commands data memory ticks n).cmdFifo.popped < commands.length :=
      lt_of_le_of_ne (standing n).popped_le fun all => before_end ⟨waiting, all⟩
    obtain ⟨m, state, kept, visible⟩ := exists_fetch data serves nonzero n waiting more
    refine ⟨m + 1, Prod.Lex.toLex_lt_toLex.mpr (Or.inr ⟨?_, ?_⟩)⟩
    · rw [before_succ, popped m, if_neg (by simp [state]), kept]
    · rw [before_succ, phase, phase, clock_of_visible state visible, waiting]
      exact Nat.zero_lt_one
  · by_cases interprets :
      (before commands data memory ticks n).control.cmdState = .interpretCmd
    · have bound := lt_of_lt_of_le
        (Fwft.popped_lt ((standing n).coherent.visible interprets)) (standing n).within
      refine ⟨n + 1, Prod.Lex.toLex_lt_toLex.mpr (Or.inl ?_)⟩
      rw [before_succ, popped n, if_pos interprets]
      omega
    · by_cases transfers :
        (before commands data memory ticks n).control.cmdState = .fifoAdv
      · obtain ⟨m, state, kept, near, visible⟩ := exists_moved data serves nonzero n transfers
        refine ⟨m + 1, Prod.Lex.toLex_lt_toLex.mpr (Or.inr ⟨?_, ?_⟩)⟩
        · rw [before_succ, popped m, if_neg (by simp [state]), kept]
        · rw [before_succ, ← near]
          exact (standing m).coherent.phase_lt_of_transfer (serves.room m) state visible
      · refine ⟨n + 1, Prod.Lex.toLex_lt_toLex.mpr (Or.inr ⟨?_, ?_⟩)⟩
        · rw [before_succ, popped n, if_neg interprets]
        · rw [before_succ]
          exact (standing n).coherent.phase_lt (serves.room n) waiting interprets transfers

/-- After the last command the command process stays where it is, and writes nothing more. -/
theorem consumed_of_end {n : Nat}
    (waiting : (before commands data memory ticks n).control.cmdState = .waitCmd)
    (all : (before commands data memory ticks n).cmdFifo.popped = commands.length) (m : Nat) :
    (before commands data memory ticks (n + m + 1)).Consumed commands.length := by
  have finished (k : Nat)
      (waiting : (before commands data memory ticks k).control.cmdState = .waitCmd)
      (all : (before commands data memory ticks k).cmdFifo.popped = commands.length) :
      (before commands data memory ticks (k + 1)).Consumed commands.length := by
    have standing := standing_before data serves nonzero k
    have empty := Fwft.empty_of_le (standing.within.trans_eq all.symm)
    obtain ⟨stays, quiet⟩ :=
      clock_of_empty (.ofList commands data) (ticks k) waiting empty
    rw [before_succ]
    refine ⟨stays, ?_, quiet⟩
    rw [standing.coherent.clock_popped, if_neg (by simp [waiting]), all]
  induction m with
  | zero => exact finished n waiting all
  | succ m inductionHypothesis =>
    exact finished (n + m + 1) inductionHypothesis.waiting inductionHypothesis.popped

/-- The list is consumed at last, and stays consumed. -/
theorem exists_consumed :
    ∃ n, ∀ m, n ≤ m → (before commands data memory ticks m).Consumed commands.length := by
  obtain ⟨n, waiting, all⟩ := exists_goal
    (fun n => remaining commands (before commands data memory ticks n))
    (exists_remaining_lt data serves nonzero) 0
  refine ⟨n + 1, fun m later => ?_⟩
  obtain ⟨gap, rfl⟩ := Nat.exists_eq_add_of_le later
  have shifted : n + 1 + gap = n + gap + 1 := by omega
  rw [shifted]
  exact consumed_of_end data serves nonzero waiting all gap

/-- Every command word has its edge at which it is interpreted. -/
theorem exists_interpreting {k : Nat} (inside : k < commands.length) :
    ∃ n, (before commands data memory ticks n).control.cmdState = .interpretCmd ∧
      (before commands data memory ticks n).cmdFifo.popped = k := by
  obtain ⟨last, consumed⟩ := exists_consumed data serves nonzero
  have comes : ∃ n, k < (before commands data memory ticks n).cmdFifo.popped :=
    ⟨last, (consumed last le_rfl).popped.symm ▸ inside⟩
  obtain ⟨n, first⟩ : ∃ n, Nat.find comes = n + 1 := by
    refine Nat.exists_eq_add_one.mpr (Nat.pos_of_ne_zero fun zero => ?_)
    have later := Nat.find_spec comes
    rw [zero] at later
    cases later
  have later := Nat.find_spec comes
  have below : n < Nat.find comes := first.symm ▸ Nat.lt_succ_self n
  have notYet := Nat.not_lt.mp (Nat.find_min comes below)
  have standing := standing_before data serves nonzero n
  rw [first, before_succ, standing.coherent.clock_popped] at later
  split_ifs at later with state
  · exact ⟨n, state, Nat.le_antisymm notYet (Nat.le_of_lt_succ later)⟩
  · exact absurd later (Nat.not_lt.mpr notYet)

/-- The status inputs that a command was given are those at the edge that interprets it. -/
theorem given_status (n : Nat) {k : Nat} {found : Given}
    (member : (given commands data memory ticks n)[k]? = some found) :
    ∃ m, (before commands data memory ticks m).cmdFifo.popped = k ∧
      found.status = (ticks m).statusReg := by
  induction n with
  | zero => cases member
  | succ n inductionHypothesis =>
    have along := regular_before data serves nonzero n
    have count : (given commands data memory ticks n).length =
        (before commands data memory ticks n).cmdFifo.popped := by
      have words := congrArg List.length (given_words commands data memory ticks n along)
      rwa [List.length_map, List.length_map, List.length_range] at words
    have next : given commands data memory ticks (n + 1) =
        given commands data memory ticks n ++
          received (.ofList commands data) (before commands data memory ticks n) (ticks n) := by
      rw [given, upTo_succ, log_concat]
      rfl
    rw [next] at member
    by_cases earlier : k < (given commands data memory ticks n).length
    · rw [List.getElem?_append_left earlier] at member
      exact inductionHypothesis member
    · have fetching := (standing_before data serves nonzero n).coherent.toFetching
      rw [List.getElem?_append_right (Nat.le_of_not_lt earlier)] at member
      by_cases state : (before commands data memory ticks n).control.cmdState = .interpretCmd
      · rw [fetching.received_of_interpret state, List.getElem?_singleton] at member
        split_ifs at member with last
        exact ⟨n, by omega, by rw [← Option.some.inj member]⟩
      · rw [fetching.received_of_other state] at member
        cases member

/-- Once the list is consumed, the interpreter has the same registers, memory and answers. -/
theorem interpreted_of_consumed {n : Nat}
    (consumed : (before commands data memory ticks n).Consumed commands.length) :
    Interpreted commands data memory ticks n := by
  have along := regular_before data serves nonzero n
  have standing := standing_before data serves nonzero n
  have meaning : (before commands data memory ticks n).meaning =
      Interpreter.interpret memory commands := by
    rw [standing.meaning, consumed.popped, List.take_length]
  have everyStored : log (clock (.ofList commands data)) (emitted (.ofList commands data))
      (powerOn memory) (upTo ticks n) = output commands data memory ticks n :=
    log_congr (along_upTo (fun m _ => by
      rw [emitted, drops, serves.room m, Bool.and_false, if_neg Bool.false_ne_true,
        List.append_nil]) n)
  have settled : (before commands data memory ticks n).owed (.ofList commands data) =
      [] := by
    rw [owed, consumed.waiting]
    show inFlight _ = []
    rw [inFlight, consumed.quiet, if_neg Bool.false_ne_true]
  have whole : log (clock (.ofList commands data)) (emitted (.ofList commands data))
      (powerOn memory) (upTo ticks n) ++
        (before commands data memory ticks n).owed (.ofList commands data) =
      Interpreter.answers data memory (given commands data memory ticks n) :=
    answers_of_refinement (refinement (.ofList commands data)) (Coherent.powerOn memory)
      (meaning_powerOn memory) rfl along
  rw [settled, List.append_nil, everyStored] at whole
  have words := given_words commands data memory ticks n along
  rw [consumed.popped, map_getD_range data le_rfl, List.take_length] at words
  refine ⟨words, whole, fun i => congrFun (congrArg Interpreter.config meaning) i, ?_, ?_, ?_⟩
  · rw [← meaning, System.meaning, consumed.waiting]
    rfl
  · rw [← meaning, System.meaning, consumed.waiting]
  · rw [← meaning, System.meaning, written, standing.coherent.control.writing, consumed.waiting]
    rfl

end Served

end Commands

/-- `control_interface` refines the sequential interpreter: under every schedule that delivers the
command words and the data words they ask for, and with room in the output FIFO, it consumes every
list of commands, and once it has, the words written to the output FIFO, the configuration, count
and address registers and the memory are the interpreter's. -/
theorem refines_interpreter (commands : List (BitVec 32)) (data : Nat → BitVec 32)
    (memory : BitVec 32 → BitVec 32) (ticks : Nat → Tick)
    (serves : Serves ticks commands.length (Interpreter.interpret memory commands).moved)
    (nonzero : Along Interpreter.step (fun state word => ¬state.ReadsNothing word)
      (Interpreter.start memory) commands) :
    (∃ n, ∀ m, n ≤ m →
        (before commands data memory ticks m).Consumed commands.length) ∧
      ∀ n, (before commands data memory ticks n).Consumed commands.length →
        Interpreted commands data memory ticks n :=
  ⟨exists_consumed data serves nonzero, fun _ consumed =>
    interpreted_of_consumed data serves nonzero consumed⟩

/-- Everything arrives at the first clock. -/
def atOnce (commands data : Nat) (n : Nat) : Tick :=
  if n = 0 then { Tick.quiet with cmdArriving := commands, dataArriving := data } else .quiet

theorem atOnce_arrivals (commands data n : Nat) :
    cmdArrivals (atOnce commands data) (n + 1) = commands ∧
      dataArrivals (atOnce commands data) (n + 1) = data := by
  induction n with
  | zero => simp [cmdArrivals, dataArrivals, upTo, atOnce]
  | succ n inductionHypothesis =>
    rw [cmdArrivals_succ, dataArrivals_succ, inductionHypothesis.1, inductionHypothesis.2]
    exact ⟨rfl, rfl⟩

theorem atOnce_serves (commands data : Nat) : Serves (atOnce commands data) commands data where
  room n := by
    rw [atOnce]
    split <;> rfl
  within n := by
    cases n with
    | zero => exact Nat.zero_le commands
    | succ n => exact (atOnce_arrivals commands data n).1.le
  arrives := ⟨1, (atOnce_arrivals commands data 0).1⟩
  supplied := ⟨1, (atOnce_arrivals commands data 0).2.ge⟩

/-- The count register is set to 2, two words of the memory are read, and two words of the data
FIFO. -/
theorem refines_interpreter_sample :
    ∃ n, (before [0x00100002, 0x80140000, 0x00190001] (fun k => BitVec.ofNat 32 k) 0
        (atOnce 3 2) n).control.sAddrA = 2 := by
  obtain ⟨⟨n, consumed⟩, interpreted⟩ :=
    refines_interpreter [0x00100002, 0x80140000, 0x00190001] (fun k => BitVec.ofNat 32 k) 0
      (atOnce 3 2) (atOnce_serves 3 2) (by decide)
  exact ⟨n, (interpreted n (consumed n le_rfl)).address⟩

end System

end K71GbE.Control
