/-
This file pairs the data beats of `sdram_buffer_fifo` with its WRITE commands.

The memory controller stores a beat under the next WRITE command, so the two
have to be accepted in equal numbers. The flag that selects the opcode belongs
to the status process and falls or rises whatever the two machines are doing.
The numbers stay paired as long as every such edge finds the write FSM between
two bursts; an edge that does not is where a beat loses its command.
-/

import K71GbE.Sdram.WriteRun

namespace K71GbE.Sdram

open BusEvent

variable {w : Nat} {burst : Nat} {core : Core w} {edge : Edge w}

/-! ### Interrupting a write run -/

/-- A write run is started over or ended at this edge. -/
def Core.Interrupted (core : Core w) (edge : Edge w) : Prop :=
  edge.wrStartPulse = true ∨ core.status.wrWriting = true ∧
    (edge.rdStartPulse = true ∨ core.stopReached = true ∨ core.autoStop = true)

/-- The write FSM rests with nothing to present, or has its command accepted at this edge. -/
def Core.BetweenBursts (core : Core w) (edge : Edge w) : Prop :=
  core.writer.writeState = .W0 ∧
      (core.status.wrWriting = false ∨ edge.indataFifoEmpty = true) ∨
    core.writer.writeState = .W2 ∧ core.status.wrWriting = true ∧ edge.appRdy = true

/-- A reset finds the write FSM at rest, a start or an end of a write run finds it between two
bursts, and a write start finds no read command on the bus. -/
def Core.CleanHandover (core : Core w) (edge : Edge w) : Prop :=
  if edge.inReset = true then core.writer.writeState = .W0
  else (core.Interrupted edge → core.BetweenBursts edge) ∧
    (edge.wrStartPulse = true → edge.rdStartPulse = false → ¬core.RaisesRead edge)

instance (core : Core w) (edge : Edge w) : Decidable (core.Interrupted edge) :=
  inferInstanceAs (Decidable (_ ∨ _ ∧ (_ ∨ _ ∨ _)))

instance (core : Core w) (edge : Edge w) : Decidable (core.BetweenBursts edge) :=
  inferInstanceAs (Decidable ((_ ∧ (_ ∨ _)) ∨ (_ ∧ _ ∧ _)))

instance (core : Core w) (edge : Edge w) : Decidable (core.CleanHandover edge) :=
  inferInstanceAs (Decidable (if edge.inReset = true then _ else (_ → _) ∧ (_ → _ → ¬_)))

/-- An edge that does not interrupt a write run leaves the flag as it is. -/
theorem wrWriting_of_uninterrupted (kept : ¬core.Interrupted edge) :
    (statusProcess core edge).wrWriting = core.status.wrWriting := by
  simp only [Core.Interrupted, not_or, not_and, Bool.not_eq_true] at kept
  obtain ⟨noStart, goesOn⟩ := kept
  cases writing : core.status.wrWriting with
  | false => simp [statusProcess_eq, noStart, writing]
  | true =>
    obtain ⟨noRead, noReach, noAuto⟩ := goesOn writing
    simp [statusProcess_eq, noStart, noRead, noReach, noAuto, writing]

/-! ### The invariant -/

/-- What the write FSM owes the memory controller: after a beat, and only then, one command. -/
structure PairingRun (core : Core w) (log : List (BusEvent w)) : Prop where
  exclusive : core.status.wrWriting = true → core.status.rdReading = false
  noRead : core.status.wrWriting = true → core.reader.rdAppEn = false
  rest : core.writer.writeState = .W0 → core.writer.wrWdfWren = false ∧
    core.writer.wrAppEn = false ∧ beats log = (writes log).length
  beat : core.writer.writeState = .W1 → core.writer.wrWdfWren = true ∧
    core.writer.wrAppEn = false ∧ core.status.wrWriting = true ∧ beats log = (writes log).length
  command : core.writer.writeState = .W2 → core.writer.wrWdfWren = false ∧
    core.writer.wrAppEn = true ∧ core.status.wrWriting = true ∧
      beats log = (writes log).length + 1
  known : core.writer.writeState ≠ .W3 ∧ core.writer.writeState ≠ .W4

theorem PairingRun.powerOn : PairingRun (Core.powerOn : Core w) [] := by
  constructor <;> simp [Core.powerOn, Core.asyncReset]

section Step

variable {log : List (BusEvent w)}

/-- A reset that finds the write FSM at rest is silent. -/
theorem PairingRun.reset (run : PairingRun core log) (reset : edge.inReset = true)
    (state : core.writer.writeState = .W0) :
    PairingRun (core.clock burst edge) (log ++ core.busEvents edge) := by
  obtain ⟨noBeat, noCommand, paired⟩ := run.rest state
  have silent : core.busEvents edge = [] := by
    simp [Core.busEvents, Core.settle_of_reset reset, Core.asyncReset, Core.beatAccepted,
      Core.commandAccepted, Core.appEn, noBeat, noCommand]
  rw [Core.clock_of_reset reset, silent, List.append_nil]
  constructor <;> simp [Core.asyncReset, noBeat, noCommand, paired]

/-- The two status flags stay exclusive, and no read command is on the bus in a write run. -/
theorem PairingRun.exclusive_step (burst : Nat) (run : PairingRun core log)
    (noRaise : edge.wrStartPulse = true → edge.rdStartPulse = false → ¬core.RaisesRead edge)
    (writing : (statusProcess core edge).wrWriting = true) :
    (statusProcess core edge).rdReading = false ∧
      (readProcess burst core edge).rdAppEn = false := by
  obtain ⟨noRead, cause⟩ := wrWriting_after writing
  rcases cause with start | ⟨noStart, before⟩
  · refine ⟨?_, rdAppEn_of_not_raises (noRaise start noRead)⟩
    simp [statusProcess_eq, noRead, start]
  · refine ⟨?_, ?_⟩
    · simp [statusProcess_eq, noRead, noStart, run.exclusive before]
    · rw [readProcess_of_idle (run.exclusive before) noRead]

/-- The commands at an edge outside reset, in a run that keeps the pairing. -/
theorem PairingRun.events (run : PairingRun core log) (running : edge.inReset = false) :
    beats (core.busEvents edge) =
        (if core.writer.wrWdfWren && edge.appWdfRdy then 1 else 0) ∧
      (writes (core.busEvents edge)).length =
        if core.status.wrWriting && core.writer.wrAppEn && edge.appRdy then 1 else 0 := by
  rw [Core.beats_busEvents, Core.writes_busEvents, Core.settle_of_running running]
  refine ⟨rfl, ?_⟩
  cases writing : core.status.wrWriting with
  | false => simp [Core.writeAccepted, Core.appCmd, writing]
  | true =>
    cases enable : core.writer.wrAppEn <;> cases ready : edge.appRdy <;>
      simp [Core.writeAccepted, Core.commandAccepted, Core.appCmd, Core.appEn, writing, enable,
        ready, run.noRead writing]

/-- Between two bursts the write FSM goes to rest, whether or not it is started over. -/
theorem writeProcess_of_between (burst : Nat) (between : core.BetweenBursts edge) :
    (writeProcess burst core edge).writeState = .W0 ∧
      (writeProcess burst core edge).wrWdfWren = false ∧
      (writeProcess burst core edge).wrAppEn = false := by
  have fsm : (writeFsm burst core edge).writeState = .W0 ∧
      (writeFsm burst core edge).wrWdfWren = false ∧
      (writeFsm burst core edge).wrAppEn = false := by
    have moved := writeFsm_step burst core edge
    generalize writeFsm burst core edge = next at moved
    rcases between with ⟨state, idle⟩ | ⟨state, _, ready⟩ <;>
      cases moved <;> simp_all
  cases start : edge.wrStartPulse with
  | false => rwa [writeProcess_of_noStart start]
  | true =>
    rw [writeProcess_of_start start]
    exact ⟨rfl, fsm.2⟩

/-- An edge between two bursts leaves no beat without its command. -/
theorem PairingRun.between (run : PairingRun core log) (running : edge.inReset = false)
    (between : core.BetweenBursts edge) :
    beats (log ++ core.busEvents edge) = (writes (log ++ core.busEvents edge)).length := by
  obtain ⟨newBeats, newWrites⟩ := run.events running
  rw [beats_append, writes_append, List.length_append, newBeats, newWrites]
  rcases between with ⟨state, _⟩ | ⟨state, writing, ready⟩
  · obtain ⟨noBeat, noCommand, paired⟩ := run.rest state
    simp [noBeat, noCommand, paired]
  · obtain ⟨noBeat, command, _, owed⟩ := run.command state
    simp [noBeat, command, writing, ready, owed]

/-- An edge outside reset keeps the pairing when it hands over cleanly. -/
theorem PairingRun.running (run : PairingRun core log) (running : edge.inReset = false)
    (handover : core.Interrupted edge → core.BetweenBursts edge)
    (noRaise : edge.wrStartPulse = true → edge.rdStartPulse = false → ¬core.RaisesRead edge) :
    PairingRun (core.clock burst edge) (log ++ core.busEvents edge) := by
  have exclusive := run.exclusive_step burst noRaise
  by_cases between : core.BetweenBursts edge
  · obtain ⟨state, noBeat, noCommand⟩ := writeProcess_of_between burst between
    have paired := run.between running between
    rw [Core.clock_of_running running]
    refine ⟨fun writing => (exclusive writing).1, fun writing => (exclusive writing).2,
      fun _ => ⟨noBeat, noCommand, paired⟩, ?_, ?_, ?_⟩ <;> simp [state]
  · have uninterrupted := mt handover between
    have noStart : edge.wrStartPulse = false := by
      simpa using fun start => uninterrupted (Or.inl start)
    have flag := wrWriting_of_uninterrupted uninterrupted
    obtain ⟨newBeats, newWrites⟩ := run.events running
    rw [Core.clock_of_running running, writeProcess_of_noStart noStart]
    have moved := writeFsm_step burst core edge
    generalize writeFsm burst core edge = next at moved
    cases moved with
    | wait state idle => exact absurd (Or.inl ⟨state, idle.symm⟩) between
    | present state _ writing =>
      obtain ⟨noBeat, noCommand, paired⟩ := run.rest state
      refine ⟨fun after => (exclusive after).1, fun after => (exclusive after).2,
        ?_, ?_, ?_, ?_⟩ <;>
        simp [newBeats, newWrites, noBeat, noCommand, paired, flag, writing]
    | holdBeat state stall =>
      obtain ⟨_, noCommand, writing, paired⟩ := run.beat state
      refine ⟨fun after => (exclusive after).1, fun after => (exclusive after).2,
        ?_, ?_, ?_, ?_⟩ <;>
        simp [newBeats, newWrites, stall, noCommand, paired, flag, writing]
    | beat state ready =>
      obtain ⟨presents, noCommand, writing, paired⟩ := run.beat state
      refine ⟨fun after => (exclusive after).1, fun after => (exclusive after).2,
        ?_, ?_, ?_, ?_⟩ <;>
        simp [newBeats, newWrites, presents, ready, noCommand, paired, flag, writing]
    | holdCommand state stall writing =>
      obtain ⟨noBeat, command, _, owed⟩ := run.command state
      refine ⟨fun after => (exclusive after).1, fun after => (exclusive after).2,
        ?_, ?_, ?_, ?_⟩ <;>
        simp [newBeats, newWrites, noBeat, command, stall, owed, flag, writing]
    | abandon state _ ended =>
      obtain ⟨_, _, writing, _⟩ := run.command state
      exact absurd writing (by simp [ended])
    | command state ready =>
      obtain ⟨_, _, writing, _⟩ := run.command state
      exact absurd (Or.inr ⟨state, writing, ready⟩) between
    | others state =>
      rcases state with state | state
      · exact absurd state run.known.1
      · exact absurd state run.known.2

theorem PairingRun.step (run : PairingRun core log) (clean : core.CleanHandover edge) :
    PairingRun (core.clock burst edge) (log ++ core.busEvents edge) := by
  unfold Core.CleanHandover at clean
  cases reset : edge.inReset with
  | true =>
    rw [if_pos reset] at clean
    exact run.reset reset clean
  | false =>
    rw [if_neg (by simp [reset])] at clean
    exact run.running reset clean.1 clean.2

end Step

/-! ### Beats and commands of a run -/

/-- Beats and WRITE commands accepted up to a moment of a run. -/
structure Paired (core : Core w) (log : List (BusEvent w)) : Prop where
  /-- At most one beat waits for its command. -/
  difference : beats log = (writes log).length ∨ beats log = (writes log).length + 1
  /-- When writing is over and the write FSM is back in `W0`, none does. -/
  settled : core.wrBusy = false → core.writer.writeState = .W0 →
    beats log = (writes log).length

theorem PairingRun.paired {log : List (BusEvent w)} (run : PairingRun core log) :
    Paired core log := by
  refine ⟨?_, fun _ state => (run.rest state).2.2⟩
  cases state : core.writer.writeState with
  | W0 => exact Or.inl (run.rest state).2.2
  | W1 => exact Or.inl (run.beat state).2.2.2
  | W2 => exact Or.inr (run.command state).2.2.2
  | W3 => exact absurd state run.known.1
  | W4 => exact absurd state run.known.2

/-- Every step of a run of the entity hands over cleanly. -/
def Buffer.CleanRun (burst : Nat) (buffer : Buffer w) (inputs : List (Ports w)) : Prop :=
  Clocked.Along (Buffer.clock burst) (fun buffer ports => buffer.core.CleanHandover
    (buffer.edge ports)) buffer inputs

instance (burst : Nat) (buffer : Buffer w) (inputs : List (Ports w)) :
    Decidable (buffer.CleanRun burst inputs) :=
  Clocked.decidableAlong _ _ _ _

/-- From power-on, beats and WRITE commands stay paired over every sequence of starts, stops,
reads and resets and every schedule, as long as the write FSM is interrupted between bursts. -/
theorem beats_paired (burst : Nat) (inputs : List (Ports w))
    (clean : Buffer.powerOn.CleanRun burst inputs) :
    Paired (Buffer.powerOn.run burst inputs).core (Buffer.powerOn.busLog burst inputs) := by
  have along : Clocked.Along (Core.clock burst) Core.CleanHandover Core.powerOn
      (Buffer.powerOn.edges burst inputs) :=
    (Clocked.along_feed Buffer.core Buffer.edge (fun _ _ => rfl) _ _ inputs).mpr clean
  have ran := Clocked.log_invariant PairingRun
    (fun _ _ _ run clean => run.step clean) PairingRun.powerOn along
  rw [Buffer.core_run]
  exact ran.paired

/-- A run whose input FIFO is empty when the memory is full ends paired. -/
theorem beats_paired_drained :
    beats ((Buffer.powerOn : Buffer 3).busLog 2 (Buffer.startAndRun 10 4)) = 2 ∧
      ((Buffer.powerOn : Buffer 3).run 2 (Buffer.startAndRun 10 4)).core.wrBusy = false ∧
      Paired ((Buffer.powerOn : Buffer 3).run 2 (Buffer.startAndRun 10 4)).core
        ((Buffer.powerOn : Buffer 3).busLog 2 (Buffer.startAndRun 10 4)) :=
  ⟨by decide, by decide, beats_paired 2 (Buffer.startAndRun 10 4) (by decide)⟩

/-- With a word waiting when the memory is full, the automatic stop leaves a beat behind. -/
theorem beats_unpaired_auto_stop :
    ¬Paired ((Buffer.powerOn : Buffer 3).run 2 (Buffer.startAndRun 14 0)).core
      ((Buffer.powerOn : Buffer 3).busLog 2 (Buffer.startAndRun 14 0)) :=
  fun paired => absurd (paired.settled (by decide) (by decide)) (by decide)

end K71GbE.Sdram
