/-
This file follows one write run of `sdram_buffer_fifo`: an idle buffer, one
start pulse, and then no other start, stop or reset, under every schedule of
the FIFO and of the two ready lines.

The invariant of such a run ties the write pointer to the WRITE commands
accepted so far: while `WR_BUSY` is high the pointer is as many bursts past the
begin address as there are accepted commands, and the enable is raised exactly
in the command state.
-/

import K71GbE.Sdram.Steps

namespace K71GbE.Sdram

open BusEvent

variable {w : Nat} {burst : Nat} {core : Core w} {edge start : Edge w}

/-! ### Quiet edges and idle states -/

/-- Outside reset, and no pulse is delivered. -/
def Edge.Quiet (edge : Edge w) : Prop :=
  edge.inReset = false ∧ edge.wrStartPulse = false ∧ edge.wrStopPulse = false ∧
    edge.rdStartPulse = false

instance (edge : Edge w) : Decidable edge.Quiet :=
  inferInstanceAs (Decidable (_ ∧ _ ∧ _ ∧ _))

/-- Outside reset, and no start pulse is delivered. -/
def Edge.NoStart (edge : Edge w) : Prop :=
  edge.inReset = false ∧ edge.wrStartPulse = false ∧ edge.rdStartPulse = false

instance (edge : Edge w) : Decidable edge.NoStart :=
  inferInstanceAs (Decidable (_ ∧ _ ∧ _))

theorem Edge.Quiet.noStart (quiet : edge.Quiet) : edge.NoStart :=
  ⟨quiet.1, quiet.2.1, quiet.2.2.2⟩

/-- Outside reset, and the write start pulse alone is delivered. -/
def Edge.StartsWriting (edge : Edge w) : Prop :=
  edge.inReset = false ∧ edge.wrStartPulse = true ∧ edge.wrStopPulse = false ∧
    edge.rdStartPulse = false

instance (edge : Edge w) : Decidable edge.StartsWriting :=
  inferInstanceAs (Decidable (_ ∧ _ ∧ _ ∧ _))

/-- One write start is delivered, at `start`, and nothing else. -/
def OneWriteStart (edges : List (Edge w)) (start : Edge w) : Prop :=
  ∃ before after, edges = before ++ start :: after ∧ (∀ edge ∈ before, edge.Quiet) ∧
    start.StartsWriting ∧ ∀ edge ∈ after, edge.Quiet

/-- Neither writing nor reading, both machines at rest and no enable raised. -/
structure Core.Idle (core : Core w) : Prop where
  notWriting : core.status.wrWriting = false
  notReading : core.status.rdReading = false
  writeRests : core.writer.writeState = .W0
  noPop : core.writer.indataFifoRden = false
  noBeat : core.writer.wrWdfWren = false
  noWrite : core.writer.wrAppEn = false
  readRests : core.reader.readState = .R0
  noRead : core.reader.rdAppEn = false

theorem Core.idle_powerOn : (Core.powerOn : Core w).Idle :=
  ⟨rfl, rfl, rfl, rfl, rfl, rfl, rfl, rfl⟩

/-- An idle write FSM stays idle, also at the edge of a start pulse. -/
theorem Core.Idle.writeFsm_eq (idle : core.Idle) :
    writeFsm burst core edge = ⟨core.writer.wrAddrI, .W0, false, false, false, false⟩ := by
  have step := writeFsm_step burst core edge
  generalize writeFsm burst core edge = next at step
  cases step with
  | wait => rfl
  | present _ _ writing => exact absurd writing (by simp [idle.notWriting])
  | holdBeat state | beat state | holdCommand state | abandon state | command state =>
    exact absurd state (by simp [idle.writeRests])
  | others => rfl

/-- An idle buffer stays idle until a start reaches it. -/
theorem Core.Idle.clock (burst : Nat) (idle : core.Idle) (noStart : edge.NoStart) :
    (core.clock burst edge).Idle := by
  obtain ⟨running, noWrite, noRead⟩ := noStart
  rw [Core.clock_of_running running, writeProcess_of_noStart noWrite, idle.writeFsm_eq,
    readProcess_of_idle idle.notReading noRead, statusProcess_eq]
  constructor <;> simp [noWrite, noRead, idle.notWriting, idle.notReading]

/-- An idle buffer presents nothing to the memory controller. -/
theorem Core.Idle.busEvents (idle : core.Idle) (running : edge.inReset = false) :
    core.busEvents edge = [] := by
  simp [Core.busEvents, Core.settle_of_running running, Core.beatAccepted,
    Core.commandAccepted, Core.appEn, idle.noBeat, idle.noWrite, idle.noRead]

theorem Core.Idle.run (burst : Nat) (idle : core.Idle) {edges : List (Edge w)}
    (noStart : ∀ edge ∈ edges, edge.NoStart) :
    (Clocked.run (Core.clock burst) core edges).Idle ∧ core.busLog burst edges = [] := by
  induction edges generalizing core with
  | nil => exact ⟨idle, rfl⟩
  | cons edge rest inductionHypothesis =>
    have first := noStart edge List.mem_cons_self
    obtain ⟨idleAfter, silent⟩ := inductionHypothesis (idle.clock burst first)
      fun other member => noStart other (List.mem_cons_of_mem _ member)
    refine ⟨idleAfter, ?_⟩
    rw [Core.busLog, Clocked.log_cons, idle.busEvents first.1, List.nil_append]
    exact silent

/-- In a run with one write start every edge is quiet, or starts an idle buffer. -/
theorem OneWriteStart.along (burst : Nat) (idle : core.Idle) {edges : List (Edge w)}
    (one : OneWriteStart edges start) :
    Clocked.Along (Core.clock burst)
      (fun core edge => edge.Quiet ∨ edge.StartsWriting ∧ core.Idle) core edges := by
  obtain ⟨before, after, rfl, quietBefore, starts, quietAfter⟩ := one
  have quiet : ∀ {edges : List (Edge w)} (core : Core w), (∀ edge ∈ edges, edge.Quiet) →
      Clocked.Along (Core.clock burst)
        (fun core edge => edge.Quiet ∨ edge.StartsWriting ∧ core.Idle) core edges :=
    fun _ quiet => Clocked.along_of_forall fun _ edge member => Or.inl (quiet edge member)
  refine (Clocked.along_append _ _ _ _ _).mpr ⟨quiet _ quietBefore, ?_, quiet _ quietAfter⟩
  exact Or.inr ⟨starts, (idle.run burst fun edge member => (quietBefore edge member).noStart).1⟩

/-! ### The invariant of a write run -/

/-- The addresses of the first `count` commands of a run from `begin`. -/
def commandAddresses (burst : Nat) (begin : BitVec w) (count : Nat) : List (BitVec w) :=
  (List.range count).map fun k => memoryAddress (burstAddress burst begin k)

@[simp] theorem length_commandAddresses (burst : Nat) (begin : BitVec w) (count : Nat) :
    (commandAddresses burst begin count).length = count := by
  rw [commandAddresses, List.length_map, List.length_range]

@[simp] theorem getElem_commandAddresses (burst : Nat) (begin : BitVec w) (count k : Nat)
    (bound : k < (commandAddresses burst begin count).length) :
    (commandAddresses burst begin count)[k] = memoryAddress (burstAddress burst begin k) := by
  simp only [commandAddresses, List.getElem_map, List.getElem_range]

theorem commandAddresses_succ (burst : Nat) (begin : BitVec w) (count : Nat) :
    commandAddresses burst begin (count + 1) =
      commandAddresses burst begin count ++ [memoryAddress (burstAddress burst begin count)] := by
  rw [commandAddresses, List.range_succ, List.map_append, List.map_singleton, commandAddresses]

theorem commandAddresses_beginning {count bursts : Nat} (begin : BitVec w)
    (bound : count ≤ bursts) :
    commandAddresses burst begin count <+: commandAddresses burst begin bursts := by
  obtain ⟨rest, rfl⟩ := Nat.exists_eq_add_of_le bound
  rw [commandAddresses, commandAddresses, List.range_add, List.map_append]
  exact List.prefix_append _ _

/-- The state of the processes after the start pulse of a write run, against the WRITE
commands accepted since. -/
structure WriteRun (burst : Nat) (begin : BitVec w) (core : Core w)
    (commands : List (BitVec w)) : Prop where
  notReading : core.status.rdReading = false
  noRead : core.reader.rdAppEn = false
  known : core.writer.writeState = .W0 ∨ core.writer.writeState = .W1 ∨
    core.writer.writeState = .W2
  beats : core.writer.wrWdfWren = true ↔ core.writer.writeState = .W1
  pops : core.writer.indataFifoRden = true → core.writer.writeState = .W1
  enabled : core.status.wrWriting = true →
    (core.writer.wrAppEn = true ↔ core.writer.writeState = .W2)
  pointer : core.status.wrWriting = true →
    core.writer.wrAddrI = burstAddress burst begin commands.length
  commands_eq : commands = commandAddresses burst begin commands.length

/-- The start pulse takes an idle buffer into its run. -/
theorem WriteRun.ofStart (burst : Nat) (idle : core.Idle) (starts : start.StartsWriting) :
    WriteRun burst start.wrAddrBegin (core.clock burst start) [] := by
  obtain ⟨running, pulse, noStop, noRead⟩ := starts
  rw [Core.clock_of_running running, writeProcess_of_start pulse, idle.writeFsm_eq,
    readProcess_of_idle idle.notReading noRead, statusProcess_eq]
  constructor <;> simp [pulse, noRead, commandAddresses]

section Run

variable {begin : BitVec w} {commands : List (BitVec w)}

/-- In a write run a WRITE command is accepted exactly in the command state, while writing. -/
theorem WriteRun.writes_busEvents (run : WriteRun burst begin core commands)
    (running : edge.inReset = false) :
    writes (core.busEvents edge) =
      if core.status.wrWriting = true ∧ core.writer.writeState = .W2 ∧ edge.appRdy = true then
        [memoryAddress core.writer.wrAddrI]
      else [] := by
  rw [Core.writes_busEvents, Core.settle_of_running running]
  refine if_congr ?_ rfl rfl
  cases writing : core.status.wrWriting with
  | false => simp [Core.writeAccepted, Core.appCmd, writing]
  | true =>
    simp [Core.writeAccepted, Core.commandAccepted, Core.appCmd, Core.appEn, writing, run.noRead,
      run.enabled writing]

theorem WriteRun.writes_of_wait (run : WriteRun burst begin core commands)
    (running : edge.inReset = false) (state : core.writer.writeState ≠ .W2) :
    writes (core.busEvents edge) = [] := by
  rw [run.writes_busEvents running, if_neg fun accepted => state accepted.2.1]

/-- `WR_BUSY` is not raised by a quiet edge. -/
theorem wrWriting_of_quiet (quiet : edge.Quiet) :
    (statusProcess core edge).wrWriting =
      (core.status.wrWriting && !core.stopReached && !core.autoStop) := by
  obtain ⟨_, noStart, _, noRead⟩ := quiet
  rw [statusProcess_eq]
  cases core.stopReached <;> cases core.autoStop <;> simp [noStart, noRead]

/-- An edge without a start keeps the invariant, with the command accepted at it. -/
theorem WriteRun.step_noStart (run : WriteRun burst begin core commands) (noStart : edge.NoStart) :
    WriteRun burst begin (core.clock burst edge) (commands ++ writes (core.busEvents edge)) := by
  obtain ⟨running, noWrite, noRead⟩ := noStart
  have before (writing : (statusProcess core edge).wrWriting = true) :
      core.status.wrWriting = true := by
    rcases (wrWriting_after writing).2 with start | ⟨_, earlier⟩
    · rw [noWrite] at start
      cases start
    · exact earlier
  have notReading : (statusProcess core edge).rdReading = false := by
    simp [statusProcess_eq, noWrite, noRead, run.notReading]
  rw [Core.clock_of_running running, writeProcess_of_noStart noWrite,
    readProcess_of_idle run.notReading noRead]
  have moved := writeFsm_step burst core edge
  generalize writeFsm burst core edge = next at moved
  cases moved with
  | wait state _ | present state _ _ | holdBeat state _ | beat state _ =>
    rw [run.writes_of_wait running (by simp [state]), List.append_nil]
    exact ⟨notReading, rfl, by simp, by simp, by simp, fun _ => by simp,
      fun writing => run.pointer (before writing), run.commands_eq⟩
  | holdCommand state stall writing =>
    rw [run.writes_busEvents running, if_neg (by simp [stall]), List.append_nil]
    exact ⟨notReading, rfl, by simp, by simp, by simp, fun _ => by simp,
      fun _ => run.pointer writing, run.commands_eq⟩
  | abandon state stall ended =>
    rw [run.writes_busEvents running, if_neg (by simp [stall]), List.append_nil]
    have stays : (statusProcess core edge).wrWriting ≠ true := fun writing => by
      simp [before writing] at ended
    exact ⟨notReading, rfl, by simp, by simp, by simp, fun writing => absurd writing stays,
      fun writing => absurd writing stays, run.commands_eq⟩
  | command state ready =>
    rw [run.writes_busEvents running]
    by_cases writing : core.status.wrWriting = true
    · have pointer := run.pointer writing
      rw [if_pos ⟨writing, state, ready⟩]
      refine ⟨notReading, rfl, by simp, by simp, by simp, fun _ => by simp, fun _ => ?_, ?_⟩
      · rw [pointer, advance_burstAddress, List.length_append, List.length_singleton]
      · rw [List.length_append, List.length_singleton, commandAddresses_succ, ← run.commands_eq,
          pointer]
    · rw [if_neg fun accepted => writing accepted.1, List.append_nil]
      exact ⟨notReading, rfl, by simp, by simp, by simp,
        fun after => absurd (before after) writing, fun after => absurd (before after) writing,
        run.commands_eq⟩
  | others state =>
    rcases state with state | state <;> exact absurd run.known (by simp [state])

/-- A quiet edge keeps the invariant, with the command accepted at it. -/
theorem WriteRun.step (run : WriteRun burst begin core commands) (quiet : edge.Quiet) :
    WriteRun burst begin (core.clock burst edge) (commands ++ writes (core.busEvents edge)) :=
  run.step_noStart quiet.noStart

theorem WriteRun.run (run : WriteRun burst begin core commands) {edges : List (Edge w)}
    (quiet : ∀ edge ∈ edges, edge.Quiet) :
    WriteRun burst begin (Clocked.run (Core.clock burst) core edges)
      (commands ++ writes (core.busLog burst edges)) := by
  induction edges generalizing core commands with
  | nil => simpa [Core.busLog] using run
  | cons edge rest inductionHypothesis =>
    have tail := inductionHypothesis (run.step (quiet edge List.mem_cons_self))
      fun other member => quiet other (List.mem_cons_of_mem _ member)
    rwa [List.append_assoc, ← writes_append] at tail

end Run

/-- What an idle buffer has done by the end of a run with one write start. -/
theorem OneWriteStart.run (burst : Nat) (idle : core.Idle) {edges : List (Edge w)}
    (one : OneWriteStart edges start) :
    WriteRun burst start.wrAddrBegin (Clocked.run (Core.clock burst) core edges)
      (writes (core.busLog burst edges)) := by
  obtain ⟨before, after, rfl, quietBefore, starts, quietAfter⟩ := one
  obtain ⟨idleBefore, silent⟩ := idle.run burst fun edge member => (quietBefore edge member).noStart
  have ran := (WriteRun.ofStart burst idleBefore starts).run quietAfter
  rw [List.nil_append] at ran
  rw [Clocked.run_append, Clocked.run_cons]
  rw [Core.busLog] at silent
  rw [Core.busLog, Clocked.log_append, silent, List.nil_append, Clocked.log_cons,
    idleBefore.busEvents starts.1, List.nil_append]
  exact ran

/-! ### A sample run -/

/-- A write start at address 2 without wrap-around in a memory of four addresses, with both ready
lines high: the input FIFO holds words for `fed` clocks and is empty for `starved` clocks. -/
def Buffer.startAndRun (fed starved : Nat) : List (Ports 3) :=
  { Ports.low with wrStart := true, wrAddrBegin := 2 } ::
    (List.replicate fed
      { Ports.low with
        appRdy := true, appWdfRdy := true, wrAddrBegin := 2, indataFifoEmpty := false } ++
      List.replicate starved { Ports.low with appRdy := true, appWdfRdy := true, wrAddrBegin := 2 })

/-- The edge at which that start reaches the processes. -/
def Buffer.startEdge : Edge 3 :=
  { (Ports.low : Ports 3) with
    appRdy := true, appWdfRdy := true, wrAddrBegin := 2, indataFifoEmpty := false
    wrStartPulse := true, wrStopPulse := false, rdStartPulse := false }

end K71GbE.Sdram
