/-
This file proves the stop-trigger law of `sdram_buffer_fifo` in wrap-around
mode: which commands are still accepted once `WR_STOP` has taken effect, and
when `WR_BUSY` falls.

The status process compares the moving write pointer with the stop address one
clock after the trigger pointer is captured. A stop address ahead of the pointer
is met exactly once. A stop address at the pointer is met only if the pointer
does not move in the meantime; when it does, the equality is missed.
-/

import K71GbE.Sdram.WriteRun

namespace K71GbE.Sdram

open BusEvent

variable {w : Nat} {burst : Nat} {core : Core w} {edge capture : Edge w}

/-! ### Where a stop finds the processes -/

/-- The stop pulse takes effect: outside reset, no start pulse beside it, and a write run with
wrap-around in progress. -/
def Core.StopTakesEffect (core : Core w) (capture : Edge w) : Prop :=
  capture.inReset = false ∧ capture.wrStopPulse = true ∧ capture.wrStartPulse = false ∧
    capture.rdStartPulse = false ∧ core.status.wrWriting = true ∧
    core.status.wrWrapAroundReg = true

instance (core : Core w) (capture : Edge w) : Decidable (core.StopTakesEffect capture) :=
  inferInstanceAs (Decidable (_ ∧ _ ∧ _ ∧ _ ∧ _ ∧ _))

/-- What a reachable buffer satisfies: the enable of the write FSM in the states that set it, one
direction at a time, and a pending stop address that is met at once or after a command. -/
structure StopReady (buffer : Buffer w) : Prop where
  known : buffer.core.writer.writeState = .W0 ∨ buffer.core.writer.writeState = .W1 ∨
    buffer.core.writer.writeState = .W2
  beat : buffer.core.writer.writeState = .W1 → buffer.core.writer.wrAppEn = false
  command : buffer.core.writer.writeState = .W2 → buffer.core.writer.wrAppEn = true
  exclusive : buffer.core.status.wrWriting = true → buffer.core.status.rdReading = false
  reached : buffer.core.stopReached = true → buffer.wrStopConverter = .request 4 ∨
    buffer.core.writer.writeState = .W0 ∧ buffer.core.writer.wrAppEn = false ∧
      (buffer.core.status.wrWriting = true → buffer.core.reader.rdAppEn = false)
  handshake : buffer.wrStopConverter.Handshake

theorem StopReady.powerOn : StopReady (Buffer.powerOn : Buffer w) := by
  refine ⟨Or.inl rfl, ?_, ?_, ?_, ?_, Or.inl rfl⟩ <;>
    simp [Buffer.powerOn, Core.powerOn, Core.asyncReset, Core.stopReached]

/-- The write FSM sets its enable exactly on the way into `W2`, but for a start pulse. -/
theorem writeProcess_known (burst : Nat) (core : Core w) (edge : Edge w) :
    ((writeProcess burst core edge).writeState = .W0 ∨
        (writeProcess burst core edge).writeState = .W1 ∨
        (writeProcess burst core edge).writeState = .W2) ∧
      ((writeProcess burst core edge).writeState = .W1 →
        (writeProcess burst core edge).wrAppEn = false) ∧
      ((writeProcess burst core edge).writeState = .W2 →
        (writeProcess burst core edge).wrAppEn = true) := by
  cases start : edge.wrStartPulse with
  | true =>
    rw [writeProcess_of_start start]
    simp
  | false =>
    rw [writeProcess_of_noStart start]
    have moved := writeFsm_step burst core edge
    generalize writeFsm burst core edge = next at moved
    cases moved <;> simp

/-- At most one direction is in progress after an edge. -/
theorem statusProcess_exclusive
    (exclusive : core.status.wrWriting = true → core.status.rdReading = false)
    (writing : (statusProcess core edge).wrWriting = true) :
    (statusProcess core edge).rdReading = false := by
  rw [statusProcess_eq] at writing ⊢
  cases read : edge.rdStartPulse <;> cases start : edge.wrStartPulse <;> simp_all

/-- A stop address that is met now was set one edge ago, or the pointer has just moved on to it. -/
theorem reached_cases (running : edge.inReset = false)
    (reached : (core.clock burst edge).stopReached = true) :
    edge.wrStopPulse = true ∨
      edge.wrStartPulse = false ∧ edge.rdStartPulse = false ∧ core.writer.writeState = .W2 ∧
        edge.appRdy = true := by
  cases stop : edge.wrStopPulse with
  | true => exact Or.inl rfl
  | false =>
    refine Or.inr ?_
    rw [Core.clock_of_running running, Core.stopReached, Core.atStopAddress,
      Bool.and_eq_true, beq_iff_eq] at reached
    obtain ⟨pending, met⟩ := reached
    have kept : edge.rdStartPulse = false ∧ edge.wrStartPulse = false ∧
        core.stopReached = false ∧ core.status.wrStopping = true := by
      rw [statusProcess_eq] at pending
      cases read : edge.rdStartPulse <;> cases start : edge.wrStartPulse <;>
        cases reached : core.stopReached <;> simp_all
    obtain ⟨noRead, noStart, notReached, stopping⟩ := kept
    have apart : core.status.triggerPointerReg + core.status.postTriggerReg ≠
        core.writer.wrAddrI := by
      simpa [Core.stopReached, Core.atStopAddress, stopping] using notReached
    rw [writeProcess_of_noStart noStart] at met
    have same : (statusProcess core edge).triggerPointerReg +
          (statusProcess core edge).postTriggerReg =
        core.status.triggerPointerReg + core.status.postTriggerReg := by
      simp [statusProcess_eq, stop]
    have moved := writeFsm_step burst core edge
    generalize writeFsm burst core edge = next at moved met
    rw [same] at met
    cases moved with
    | command state ready => exact ⟨noStart, noRead, state, ready⟩
    | wait | present | holdBeat | beat | holdCommand | abandon | others =>
      exact absurd met apart

theorem StopReady.step {buffer : Buffer w} (ready : StopReady buffer) (ports : Ports w) :
    StopReady (buffer.clock burst ports) := by
  have handshake := ready.handshake.clock ports.reset ports.wrStop
  cases reset : (buffer.edge ports).inReset with
  | true =>
    have core : (buffer.clock burst ports).core = buffer.core.asyncReset :=
      Core.clock_of_reset reset
    refine ⟨?_, ?_, ?_, ?_, ?_, handshake⟩ <;>
      simp [core, Core.asyncReset, Core.stopReached]
  | false =>
    have core : (buffer.clock burst ports).core = _ := Core.clock_of_running reset
    obtain ⟨known, beat, command⟩ := writeProcess_known burst buffer.core
      (buffer.edge ports)
    refine ⟨by rwa [core], by rwa [core], by rwa [core], ?_, ?_, handshake⟩
    · rw [core]
      exact statusProcess_exclusive ready.exclusive
    · intro reached
      rcases reached_cases reset reached with stop | ⟨noStart, noRead, state, accepted⟩
      · refine Or.inl ?_
        have noReset : ports.reset = false := by
          simpa [Buffer.edge, Ports.inReset] using (Bool.or_eq_false_iff.mp reset).1
        have delivered : buffer.wrStopConverter.outProc.pulseout = true := by
          simpa [Buffer.edge, Pulse2pulse.settle, noReset] using stop
        have started := ready.handshake.eq_of_pulseout delivered
        show buffer.wrStopConverter.clock true true ports.reset ports.wrStop = .request 4
        rw [started, noReset, Pulse2pulse.request_clock (by decide)]
      · refine Or.inr ?_
        rw [core, writeProcess_of_noStart noStart, writeFsm_of_accepted state accepted]
        refine ⟨rfl, rfl, fun writing => ?_⟩
        obtain ⟨_, started | ⟨_, before⟩⟩ := wrWriting_after writing
        · simp [noStart] at started
        · rw [readProcess_of_idle (ready.exclusive before) noRead]

/-- What a stop pulse finds in a buffer that has run from power-on. -/
structure StopFinds (core : Core w) : Prop where
  known : core.writer.writeState = .W0 ∨ core.writer.writeState = .W1 ∨
    core.writer.writeState = .W2
  beat : core.writer.writeState = .W1 → core.writer.wrAppEn = false
  command : core.writer.writeState = .W2 → core.writer.wrAppEn = true
  notReading : core.status.rdReading = false
  reached : core.stopReached = true → core.writer.writeState = .W0 ∧ core.appEn = false

theorem Buffer.stopFinds (burst : Nat) (before : List (Ports w)) (ports : Ports w)
    (takes : (powerOn.run burst before).core.StopTakesEffect
      ((powerOn.run burst before).edge ports)) :
    StopFinds (powerOn.run burst before).core := by
  have ready : StopReady (powerOn.run burst before) :=
    Clocked.run_always StopReady (fun _ ports ready => ready.step ports) StopReady.powerOn before
  obtain ⟨running, stop, _, _, writing, _⟩ := takes
  refine ⟨ready.known, ready.beat, ready.command, ready.exclusive writing, fun reached => ?_⟩
  have noReset : ports.reset = false := by
    simpa [edge, Ports.inReset] using (Bool.or_eq_false_iff.mp running).1
  have delivered : (powerOn.run burst before).wrStopConverter.outProc.pulseout = true := by
    simpa [edge, Pulse2pulse.settle, noReset] using stop
  rcases ready.reached reached with started | ⟨state, noWrite, noRead⟩
  · exact absurd (ready.handshake.eq_of_pulseout delivered) (by rw [started]; decide)
  · exact ⟨state, by rw [Core.appEn, noWrite, noRead writing, Bool.or_false]⟩

/-! ### The invariant of a stopping run -/

/-- A run in which a stop is pending, `bursts` bursts after the captured pointer. -/
structure StopRun (burst bursts : Nat) (trigger : BitVec w) (core : Core w)
    (commands : List (BitVec w)) : Prop where
  run : WriteRun burst trigger core commands
  pending : core.status.wrWriting = true → core.status.wrStopping = true ∧
    core.status.triggerPointerReg = trigger ∧
    core.status.postTriggerReg = BitVec.ofNat w (burst * bursts) ∧
    core.status.wrWrapAroundReg = true
  bound : core.status.wrWriting = true → commands.length ≤ bursts ∧
    (commands.length = bursts → core.writer.writeState ≠ .W2)
  ended : core.status.wrWriting = false → commands.length = bursts

section Law

variable {bursts : Nat} {trigger : BitVec w} {commands : List (BitVec w)}

/-- The stop address is as many bursts ahead as are left to be written. -/
theorem stop_address_iff (inMemory : burst * bursts < 2 ^ (w - 1)) (positive : 0 < burst)
    {count : Nat} (bound : count ≤ bursts) :
    trigger + BitVec.ofNat w (burst * bursts) = burstAddress burst trigger count ↔
      count = bursts := by
  constructor
  · intro met
    rw [burstAddress, BitVec.add_right_inj] at met
    have small := lt_of_lt_of_le inMemory memorySize_le
    have less : burst * count ≤ burst * bursts := Nat.mul_le_mul_left _ bound
    have equal := congrArg BitVec.toNat met
    rw [BitVec.toNat_ofNat, BitVec.toNat_ofNat, Nat.mod_eq_of_lt small,
      Nat.mod_eq_of_lt (lt_of_le_of_lt less small)] at equal
    exact (Nat.eq_of_mul_eq_mul_left positive equal).symm
  · rintro rfl
    rfl

/-- While the run is writing, the stop condition holds exactly when nothing is left. -/
theorem StopRun.stopReached_eq (inMemory : burst * bursts < 2 ^ (w - 1)) (positive : 0 < burst)
    (run : StopRun burst bursts trigger core commands)
    (writing : core.status.wrWriting = true) :
    core.stopReached = decide (commands.length = bursts) := by
  obtain ⟨stopping, pointer, post, _⟩ := run.pending writing
  rw [Core.stopReached, Core.atStopAddress, stopping, pointer, post, run.run.pointer writing,
    Bool.true_and]
  exact decide_eq_decide.mpr (stop_address_iff inMemory positive (run.bound writing).1)

/-- While bursts are left, a quiet edge keeps the run writing and the stop pending. -/
theorem StopRun.pending_step (inMemory : burst * bursts < 2 ^ (w - 1)) (positive : 0 < burst)
    (run : StopRun burst bursts trigger core commands) (quiet : edge.Quiet)
    (writing : core.status.wrWriting = true) (left : commands.length ≠ bursts) :
    (statusProcess core edge).wrWriting = true ∧ (statusProcess core edge).wrStopping = true ∧
      (statusProcess core edge).triggerPointerReg = trigger ∧
      (statusProcess core edge).postTriggerReg = BitVec.ofNat w (burst * bursts) ∧
      (statusProcess core edge).wrWrapAroundReg = true := by
  obtain ⟨stopping, pointer, post, wraps⟩ := run.pending writing
  have notReached : core.stopReached = false := by
    rw [run.stopReached_eq inMemory positive writing, decide_eq_false left]
  have noAuto : core.autoStop = false := by simp [Core.autoStop, wraps]
  obtain ⟨_, noStart, noStop, noRead⟩ := quiet
  rw [statusProcess_eq]
  simp [noStart, noStop, noRead, notReached, noAuto, writing, stopping, pointer, post, wraps]

/-- When nothing is left, a quiet edge ends the run, and no command is accepted at it. -/
theorem StopRun.finished (inMemory : burst * bursts < 2 ^ (w - 1)) (positive : 0 < burst)
    (run : StopRun burst bursts trigger core commands) (quiet : edge.Quiet)
    (full : commands.length = bursts) :
    (statusProcess core edge).wrWriting = false ∧ writes (core.busEvents edge) = [] := by
  rw [wrWriting_of_quiet quiet, run.run.writes_busEvents quiet.1]
  cases writing : core.status.wrWriting with
  | false => exact ⟨rfl, if_neg (by simp)⟩
  | true =>
    rw [run.stopReached_eq inMemory positive writing, decide_eq_true full]
    exact ⟨by simp, if_neg fun accepted => (run.bound writing).2 full accepted.2.1⟩

/-- A quiet edge keeps the invariant. -/
theorem StopRun.step (inMemory : burst * bursts < 2 ^ (w - 1)) (positive : 0 < burst)
    (run : StopRun burst bursts trigger core commands) (quiet : edge.Quiet) :
    StopRun burst bursts trigger (core.clock burst edge)
      (commands ++ writes (core.busEvents edge)) := by
  by_cases full : commands.length = bursts
  · obtain ⟨ended, silent⟩ := run.finished inMemory positive quiet full
    have next := run.run.step quiet
    rw [silent, List.append_nil] at next ⊢
    have notWriting : (core.clock burst edge).status.wrWriting = false := by
      rwa [Core.clock_of_running quiet.1]
    exact ⟨next, fun writing => by simp [notWriting] at writing,
      fun writing => by simp [notWriting] at writing, fun _ => full⟩
  · have writing : core.status.wrWriting = true := by
      by_contra ended
      exact full (run.ended (Bool.eq_false_of_not_eq_true ended))
    obtain ⟨goesOn, pending⟩ := run.pending_step inMemory positive quiet writing full
    have bound := lt_of_le_of_ne (run.bound writing).1 full
    refine ⟨run.run.step quiet, fun _ => ?_, fun _ => ?_, fun ended => ?_⟩
    · rwa [Core.clock_of_running quiet.1]
    · rw [run.run.writes_busEvents quiet.1]
      split
      · rename_i accepted
        rw [List.length_append, List.length_singleton, Core.clock_of_running quiet.1,
          writeProcess_of_noStart quiet.2.1, writeFsm_of_accepted accepted.2.1 accepted.2.2]
        exact ⟨bound, fun _ => by simp⟩
      · rw [List.append_nil]
        exact ⟨bound.le, fun done => absurd done full⟩
    · rw [Core.clock_of_running quiet.1] at ended
      exact absurd (goesOn.symm.trans ended) (by decide)

theorem StopRun.runs (inMemory : burst * bursts < 2 ^ (w - 1)) (positive : 0 < burst)
    (run : StopRun burst bursts trigger core commands) {later : List (Edge w)}
    (quiet : ∀ edge ∈ later, edge.Quiet) :
    StopRun burst bursts trigger (Clocked.run (Core.clock burst) core later)
      (commands ++ writes (core.busLog burst later)) := by
  induction later generalizing core commands with
  | nil => simpa [Core.busLog] using run
  | cons edge rest inductionHypothesis =>
    have tail := inductionHypothesis (run.step inMemory positive (quiet edge List.mem_cons_self))
      fun other member => quiet other (List.mem_cons_of_mem _ member)
    rwa [List.append_assoc, ← writes_append] at tail

/-! ### The capture -/

/-- The status registers after the edge that captures the pointer, when no earlier stop ends
there. -/
theorem status_of_capture (takes : core.StopTakesEffect capture)
    (notReached : core.stopReached = false) :
    (statusProcess core capture).wrWriting = true ∧
      (statusProcess core capture).wrStopping = true ∧
      (statusProcess core capture).triggerPointerReg = core.writer.wrAddrI ∧
      (statusProcess core capture).postTriggerReg = capture.postTrigger ∧
      (statusProcess core capture).wrWrapAroundReg = true := by
  obtain ⟨_, stop, noStart, noRead, writing, wraps⟩ := takes
  have noAuto : core.autoStop = false := by simp [Core.autoStop, wraps]
  rw [statusProcess_eq]
  simp [stop, noStart, noRead, writing, wraps, notReached, noAuto]

/-- The stop finds no command it could not stop any more: with nothing to follow, the write FSM
is not past its data. -/
def Core.CapturedEarly (core : Core w) (capture : Edge w) : Prop :=
  core.writer.writeState = .W0 ∨ core.writer.writeState = .W1 ∧ capture.appWdfRdy = false

instance (core : Core w) (capture : Edge w) : Decidable (core.CapturedEarly capture) :=
  inferInstanceAs (Decidable (_ ∨ (_ ∧ _)))

/-- The write FSM goes on at the capture, with the command it has accepted there. -/
theorem StopFinds.writeRun_of_capture (burst : Nat) (finds : StopFinds core)
    (takes : core.StopTakesEffect capture) :
    WriteRun burst core.writer.wrAddrI
      ⟨statusProcess core capture, writeFsm burst core capture, ⟨0, false, .R0⟩⟩
      (if core.writer.writeState = .W2 ∧ capture.appRdy = true then
        [memoryAddress core.writer.wrAddrI]
      else []) := by
  obtain ⟨_, _, noStart, noRead, writing, _⟩ := takes
  have notReading : (statusProcess core capture).rdReading = false := by
    simp [statusProcess_eq, noRead, noStart, finds.notReading]
  have moved := writeFsm_step burst core capture
  generalize writeFsm burst core capture = next at moved
  cases moved with
  | wait state _ | present state _ _ | holdBeat state _ | beat state _ =>
    rw [if_neg (by simp [state])]
    exact ⟨notReading, rfl, by simp, by simp, by simp, fun _ => by simp, fun _ => by simp, rfl⟩
  | holdCommand state stall _ =>
    rw [if_neg (by simp [stall])]
    exact ⟨notReading, rfl, by simp, by simp, by simp, fun _ => by simp, fun _ => by simp, rfl⟩
  | abandon state _ ended => exact absurd writing (by simp [ended])
  | command state ready =>
    rw [if_pos ⟨state, ready⟩]
    refine ⟨notReading, rfl, by simp, by simp, by simp, fun _ => by simp, fun _ => ?_, ?_⟩
    · exact (congrArg (advance burst) (burstAddress_zero _).symm).trans
        (advance_burstAddress _ 0)
    · simp [commandAddresses]
  | others state =>
    rcases state with state | state <;> exact absurd finds.known (by simp [state])

/-- No more commands are accepted at the capture than are left, and with none left none follows. -/
theorem StopFinds.bound_of_capture (burst : Nat) (finds : StopFinds core)
    (takes : core.StopTakesEffect capture) (early : bursts = 0 → core.CapturedEarly capture) :
    let commands := if core.writer.writeState = .W2 ∧ capture.appRdy = true then
        [memoryAddress core.writer.wrAddrI]
      else []
    commands.length ≤ bursts ∧
      (commands.length = bursts → (writeFsm burst core capture).writeState ≠ .W2) := by
  intro commands
  obtain ⟨_, _, _, _, writing, _⟩ := takes
  have left : core.writer.writeState = .W2 → 0 < bursts := fun state => by
    by_contra noBurst
    rcases early (Nat.eq_zero_of_not_pos noBurst) with rests | ⟨rests, _⟩ <;>
      simp [state] at rests
  have moved := writeFsm_step burst core capture
  generalize writeFsm burst core capture = next at moved
  cases moved with
  | wait state _ | present state _ _ | holdBeat state _ =>
    rw [show commands = [] from if_neg (by simp [state])]
    exact ⟨Nat.zero_le _, fun _ => by simp⟩
  | beat state ready =>
    rw [show commands = [] from if_neg (by simp [state])]
    refine ⟨Nat.zero_le _, fun zero => ?_⟩
    rcases early zero.symm with rests | ⟨_, stall⟩
    · simp [state] at rests
    · simp [ready] at stall
  | holdCommand state stall _ =>
    rw [show commands = [] from if_neg (by simp [stall])]
    exact ⟨Nat.zero_le _, fun zero => absurd zero (left state).ne⟩
  | abandon state _ ended => exact absurd writing (by simp [ended])
  | command state ready =>
    rw [show commands = [memoryAddress core.writer.wrAddrI] from if_pos ⟨state, ready⟩]
    exact ⟨left state, fun _ => by simp⟩
  | others state =>
    rcases state with state | state <;> exact absurd finds.known (by simp [state])

/-- The edge that captures the pointer opens a stopping run, with the command the write FSM has
accepted there. -/
theorem StopFinds.opens (burst : Nat) (finds : StopFinds core)
    (takes : core.StopTakesEffect capture) (notReached : core.stopReached = false)
    (post : capture.postTrigger = BitVec.ofNat w (burst * bursts))
    (early : bursts = 0 → core.CapturedEarly capture) :
    StopRun burst bursts core.writer.wrAddrI (core.clock burst capture)
      (if core.writer.writeState = .W2 ∧ capture.appRdy = true then
        [memoryAddress core.writer.wrAddrI]
      else []) := by
  obtain ⟨goesOn, stopping, pointer, postReg, wraps⟩ := status_of_capture takes notReached
  rw [post] at postReg
  rw [Core.clock_of_running takes.1, writeProcess_of_noStart takes.2.2.1,
    readProcess_of_idle finds.notReading takes.2.2.2.1]
  exact ⟨finds.writeRun_of_capture burst takes, fun _ => ⟨stopping, pointer, postReg, wraps⟩,
    fun _ => finds.bound_of_capture burst takes early,
    fun ended => absurd (goesOn.symm.trans ended) (by decide)⟩

/-- The WRITE commands accepted at the capture edge: any raised enable counts. -/
theorem writes_of_capture (takes : core.StopTakesEffect capture) :
    writes (core.busEvents capture) =
      if core.appEn = true ∧ capture.appRdy = true then [memoryAddress core.writer.wrAddrI]
      else [] := by
  obtain ⟨running, _, _, _, writing, _⟩ := takes
  rw [Core.writes_busEvents, Core.settle_of_running running]
  simp [Core.writeAccepted, Core.commandAccepted, Core.appCmd, writing]

/-- A quiet edge with a word in the input FIFO and both ready lines high. -/
def Edge.ready : Edge w :=
  { (Ports.low : Ports w) with
    appRdy := true, appWdfRdy := true, indataFifoEmpty := false
    wrStartPulse := false, wrStopPulse := false, rdStartPulse := false }

theorem Edge.quiet_ready : (Edge.ready : Edge w).Quiet := ⟨rfl, rfl, rfl, rfl⟩

/-- The write FSM goes round its states at such edges. -/
theorem writeState_ready (burst : Nat) (writing : core.status.wrWriting = true) :
    (core.writer.writeState = .W0 → (core.clock burst .ready).writer.writeState = .W1) ∧
      (core.writer.writeState = .W1 → (core.clock burst .ready).writer.writeState = .W2) := by
  rw [Core.clock_of_running rfl, writeProcess_of_noStart rfl]
  constructor <;> intro state <;> simp [writeFsm, state, writing, Edge.ready]

/-- A run with bursts left, ready for `clocks` clocks, has one of them accepted. -/
theorem StopRun.writes_ready (inMemory : burst * bursts < 2 ^ (w - 1)) (positive : 0 < burst)
    (run : StopRun burst bursts trigger core commands) (left : commands.length < bursts) :
    writes (core.busLog burst (List.replicate 3 .ready)) ≠ [] := by
  have writing : ∀ {core : Core w}, StopRun burst bursts trigger core commands →
      core.status.wrWriting = true := fun run => by
    by_contra ended
    exact left.ne (run.ended (Bool.eq_false_of_not_eq_true ended))
  have accepts : ∀ {core : Core w}, StopRun burst bursts trigger core commands →
      core.writer.writeState = .W2 → writes (core.busEvents .ready) ≠ [] := fun run state => by
    rw [run.run.writes_busEvents rfl, if_pos ⟨writing run, state, rfl⟩]
    exact List.cons_ne_nil _ _
  have moves : ∀ {core : Core w}, StopRun burst bursts trigger core commands →
      core.writer.writeState ≠ .W2 →
      StopRun burst bursts trigger (core.clock burst .ready) commands := fun run state => by
    have next := run.step inMemory positive Edge.quiet_ready
    rwa [run.run.writes_of_wait rfl state, List.append_nil] at next
  simp only [List.replicate, Core.busLog, Clocked.log_cons, writes_append, ne_eq,
    List.append_eq_nil_iff, not_and]
  rcases run.run.known with state | state | state
  · have one := moves run (by simp [state])
    have oneState := (writeState_ready burst (writing run)).1 state
    have two := moves one (by simp [oneState])
    have twoState := (writeState_ready burst (writing one)).2 oneState
    exact fun _ _ refused => absurd refused (accepts two twoState)
  · have one := moves run (by simp [state])
    have oneState := (writeState_ready burst (writing run)).2 state
    exact fun _ refused => absurd refused (accepts one oneState)
  · exact fun refused => absurd refused (accepts run state)

end Law

/-! ### The stop-trigger law -/

/-- What has been accepted since a stop was captured at `trigger`, with `bursts` bursts to
follow. -/
structure Stopped (burst bursts : Nat) (trigger : BitVec w) (core : Core w)
    (commands : List (BitVec w)) : Prop where
  /-- The commands are at the next addresses, in order and no others. -/
  inOrder : commands <+: commandAddresses burst trigger bursts
  /-- `WR_BUSY` falls only once all of them have been accepted. -/
  complete : core.wrBusy = false → commands = commandAddresses burst trigger bursts
  /-- It falls at the next edge once they have. -/
  falls : commands = commandAddresses burst trigger bursts →
    ∀ next : Edge w, next.Quiet → (core.clock burst next).wrBusy = false

/-- The law for a stop captured at one edge, under every schedule after it. -/
def StopLaw (burst bursts : Nat) (core : Core w) (capture : Edge w) : Prop :=
  ∀ later : List (Edge w), (∀ edge ∈ later, edge.Quiet) →
    Stopped burst bursts (core.clock burst capture).triggerPointer
      (Clocked.run (Core.clock burst) core (capture :: later))
      (writes (core.busLog burst (capture :: later)))

/-- No enable left over from an earlier run is accepted at the capture; with bursts to follow, no
earlier stop ends there; with none, the write FSM is not past its data. -/
structure CleanCapture (bursts : Nat) (core : Core w) (capture : Edge w) : Prop where
  fresh : core.appEn = true → core.writer.writeState ≠ .W2 → capture.appRdy = false
  ahead : bursts ≠ 0 → core.stopReached = false
  early : bursts = 0 → core.CapturedEarly capture

section Law

variable {bursts : Nat} {trigger : BitVec w} {commands : List (BitVec w)}

theorem StopRun.stopped (inMemory : burst * bursts < 2 ^ (w - 1)) (positive : 0 < burst)
    (run : StopRun burst bursts trigger core commands) :
    Stopped burst bursts trigger core commands := by
  have named := run.run.commands_eq
  have whole : commands.length = bursts → commands = commandAddresses burst trigger bursts := by
    rintro rfl
    exact named
  refine ⟨?_, fun ended => whole (run.ended ended), fun done next quiet => ?_⟩
  · rw [named]
    refine commandAddresses_beginning trigger ?_
    cases writing : core.status.wrWriting with
    | true => exact (run.bound writing).1
    | false => exact (run.ended writing).le
  · have full : commands.length = bursts := by rw [done, length_commandAddresses]
    rw [Core.wrBusy, Core.clock_of_running quiet.1]
    exact (run.finished inMemory positive quiet full).1

theorem triggerPointer_of_capture (takes : core.StopTakesEffect capture) :
    (core.clock burst capture).triggerPointer = core.writer.wrAddrI := by
  obtain ⟨running, stop, _, _, writing, _⟩ := takes
  rw [Core.triggerPointer, Core.clock_of_running running, statusProcess_eq]
  simp [stop, writing]

/-- An earlier stop that ends at the capture leaves nothing to follow and takes nothing. -/
theorem StopFinds.ends (burst : Nat) (finds : StopFinds core)
    (takes : core.StopTakesEffect capture) (reached : core.stopReached = true) :
    StopRun burst 0 core.writer.wrAddrI (core.clock burst capture) [] := by
  obtain ⟨running, stop, noStart, noRead, writing, _⟩ := takes
  have ended : (statusProcess core capture).wrWriting = false := by
    simp [statusProcess_eq, noRead, reached]
  have notReading : (statusProcess core capture).rdReading = false := by
    simp [statusProcess_eq, noRead, noStart, finds.notReading]
  rw [Core.clock_of_running running, writeProcess_of_noStart noStart,
    readProcess_of_idle finds.notReading noRead]
  have moved := writeFsm_step burst core capture
  generalize writeFsm burst core capture = next at moved
  have state := (finds.reached reached).1
  refine ⟨?_, fun still => ?_, fun still => ?_, fun _ => rfl⟩
  · cases moved with
    | wait | present =>
      exact ⟨notReading, rfl, by simp, by simp, by simp, fun still => by simp [ended] at still,
        fun still => by simp [ended] at still, rfl⟩
    | holdBeat other | beat other | holdCommand other | abandon other | command other =>
      exact absurd other (by simp [state])
    | others other => rcases other with other | other <;> simp [state] at other
  · exact absurd (ended.symm.trans still) (by decide)
  · exact absurd (ended.symm.trans still) (by decide)

/-- A clean capture opens a stopping run with the commands accepted at it. -/
theorem CleanCapture.opens (burst : Nat) (clean : CleanCapture bursts core capture)
    (finds : StopFinds core) (takes : core.StopTakesEffect capture)
    (post : capture.postTrigger = BitVec.ofNat w (burst * bursts)) :
    StopRun burst bursts core.writer.wrAddrI (core.clock burst capture)
      (writes (core.busEvents capture)) := by
  rw [writes_of_capture takes]
  cases reached : core.stopReached with
  | true =>
    have zero : bursts = 0 := by
      by_contra burstsLeft
      simp [clean.ahead burstsLeft] at reached
    rw [zero, if_neg (by simp [(finds.reached reached).2])]
    exact finds.ends burst takes reached
  | false =>
    have same : core.appEn = true ∧ capture.appRdy = true ↔
        core.writer.writeState = .W2 ∧ capture.appRdy = true := by
      refine and_congr_left fun ready => ⟨fun enabled => ?_, fun state => ?_⟩
      · by_contra other
        simp [clean.fresh enabled other] at ready
      · simp [Core.appEn, finds.command state]
    rw [if_congr same rfl rfl]
    exact finds.opens burst takes reached post clean.early

/-- Every schedule after a clean capture keeps the law. -/
theorem CleanCapture.stopLaw (inMemory : burst * bursts < 2 ^ (w - 1)) (positive : 0 < burst)
    (clean : CleanCapture bursts core capture) (finds : StopFinds core)
    (takes : core.StopTakesEffect capture)
    (post : capture.postTrigger = BitVec.ofNat w (burst * bursts)) :
    StopLaw burst bursts core capture := by
  intro later quiet
  rw [triggerPointer_of_capture takes, Core.busLog, Clocked.log_cons, writes_append,
    Clocked.run_cons]
  exact ((clean.opens burst finds takes post).runs inMemory positive quiet).stopped inMemory
    positive

/-- The law gives the commands accepted at the capture and after it as one initial part. -/
theorem StopLaw.inOrder (law : StopLaw burst bursts core capture)
    (takes : core.StopTakesEffect capture) (later : List (Edge w))
    (quiet : ∀ edge ∈ later, edge.Quiet) :
    writes (core.busEvents capture) ++
        writes ((core.clock burst capture).busLog burst later) <+:
      commandAddresses burst core.writer.wrAddrI bursts := by
  have stopped := (law later quiet).inOrder
  rwa [triggerPointer_of_capture takes, Core.busLog, Clocked.log_cons, writes_append] at stopped

/-- With bursts to follow, an earlier stop that ends at the capture breaks the law at once. -/
theorem StopLaw.ahead (law : StopLaw burst bursts core capture) (finds : StopFinds core)
    (takes : core.StopTakesEffect capture) (nonzero : bursts ≠ 0) : core.stopReached = false := by
  by_contra reached
  rw [Bool.not_eq_false] at reached
  have ended : (core.clock burst capture).wrBusy = false := by
    rw [Core.wrBusy, Core.clock_of_running takes.1, statusProcess_eq]
    simp [takes.2.2.2.1, reached]
  have all := (law [] (by simp)).complete ended
  rw [Core.busLog, Clocked.log_cons, Clocked.log_nil, List.append_nil, writes_of_capture takes,
    if_neg (by simp [(finds.reached reached).2])] at all
  exact nonzero (by simpa using congrArg List.length all.symm)

/-- With none to follow, a write FSM past its data has its command accepted after all. -/
theorem StopLaw.early (law : StopLaw burst bursts core capture) (finds : StopFinds core)
    (takes : core.StopTakesEffect capture) (zero : bursts = 0) :
    core.CapturedEarly capture := by
  by_contra late
  simp only [Core.CapturedEarly, not_or, not_and, Bool.not_eq_false] at late
  have notReached : core.stopReached = false := by
    by_contra reached
    exact late.1 (finds.reached (Bool.eq_true_of_not_eq_false reached)).1
  have silent := law.inOrder takes [.ready] (by simp [Edge.quiet_ready])
  rw [zero, commandAddresses, List.range_zero, List.map_nil, List.prefix_nil,
    List.append_eq_nil_iff, writes_of_capture takes] at silent
  obtain ⟨atCapture, after⟩ := silent
  have next : (core.clock burst capture).writer.wrAppEn = true := by
    rw [Core.clock_of_running takes.1, writeProcess_of_noStart takes.2.2.1]
    have moved := writeFsm_step burst core capture
    generalize writeFsm burst core capture = next at moved
    cases moved with
    | wait state | present state => exact absurd state late.1
    | holdBeat state stall => exact absurd (late.2 state) (by simp [stall])
    | beat | holdCommand | abandon => rfl
    | command state ready =>
      have enabled : core.appEn = true := by simp [Core.appEn, finds.command state]
      rw [if_pos ⟨enabled, ready⟩] at atCapture
      exact absurd atCapture (List.cons_ne_nil _ _)
    | others state =>
      rcases state with state | state <;> exact absurd finds.known (by simp [state])
  have goesOn : (core.clock burst capture).status.wrWriting = true := by
    rw [Core.clock_of_running takes.1]
    exact (status_of_capture takes notReached).1
  rw [Core.busLog, Clocked.log_cons, Clocked.log_nil, List.append_nil, Core.writes_busEvents,
    Core.settle_of_running rfl, if_pos] at after
  · exact absurd after (List.cons_ne_nil _ _)
  · simp [Core.writeAccepted, Core.commandAccepted, Core.appEn, Core.appCmd, next, goesOn,
      Edge.ready]

/-- Two bursts in a row are at different addresses of the memory. -/
theorem memoryAddress_ne_succ (inMemory : burst * 2 < 2 ^ (w - 1)) (positive : 0 < burst)
    (begin : BitVec w) (k : Nat) :
    memoryAddress (burstAddress burst begin k) ≠
      memoryAddress (burstAddress burst begin (k + 1)) := by
  intro same
  have congruent := congrArg BitVec.toNat same
  rw [memoryAddress_burstAddress, memoryAddress_burstAddress, Nat.mul_succ, ← Nat.add_assoc]
    at congruent
  have divides : 2 ^ (w - 1) ∣ burst := by
    refine (Nat.modEq_zero_iff_dvd).mp (Nat.ModEq.add_left_cancel' (begin.toNat + burst * k) ?_)
    exact congruent.symm
  exact absurd (Nat.le_of_dvd positive divides) (by omega)

/-- A left-over enable writes the trigger address once more than it should be. -/
theorem StopLaw.fresh (inMemory : burst * bursts < 2 ^ (w - 1)) (positive : 0 < burst)
    (law : StopLaw burst bursts core capture) (finds : StopFinds core)
    (takes : core.StopTakesEffect capture)
    (post : capture.postTrigger = BitVec.ofNat w (burst * bursts)) (enabled : core.appEn = true)
    (other : core.writer.writeState ≠ .W2) : capture.appRdy = false := by
  by_contra ready
  rw [Bool.not_eq_false] at ready
  have notReached : core.stopReached = false := by
    by_contra reached
    simp [(finds.reached (Bool.eq_true_of_not_eq_false reached)).2] at enabled
  have first : writes (core.busEvents capture) = [memoryAddress core.writer.wrAddrI] := by
    rw [writes_of_capture takes, if_pos ⟨enabled, ready⟩]
  have nonzero : bursts ≠ 0 := by
    rintro rfl
    have silent := law.inOrder takes [] (by simp)
    rw [first] at silent
    simp [commandAddresses] at silent
  have run := finds.opens burst takes notReached post fun zero => absurd zero nonzero
  rw [if_neg fun accepted => other accepted.1] at run
  have quiet : ∀ edge ∈ List.replicate 3 (Edge.ready : Edge w), edge.Quiet := by
    simp [Edge.quiet_ready]
  have again := run.writes_ready inMemory positive (Nat.pos_of_ne_zero nonzero)
  have named := (run.runs inMemory positive quiet).run.commands_eq
  have inOrder := law.inOrder takes _ quiet
  rw [List.nil_append] at named
  rw [first] at inOrder
  generalize writes ((core.clock burst capture).busLog burst (List.replicate 3 .ready)) = commands
    at again named inOrder
  cases commands with
  | nil => exact again rfl
  | cons second rest =>
    have two : 2 ≤ bursts := by
      have bound := inOrder.length_le
      rw [length_commandAddresses] at bound
      exact le_trans (by simp) bound
    have atFirst := List.getElem_of_eq named (i := 0) (by simp)
    have atSecond := inOrder.getElem (i := 1) (by simp)
    rw [getElem_commandAddresses] at atFirst atSecond
    exact memoryAddress_ne_succ (lt_of_le_of_lt (Nat.mul_le_mul_left _ two) inMemory) positive
      core.writer.wrAddrI 0 (atFirst.symm.trans atSecond)

end Law

/-- In wrap-around mode the stop-trigger law holds of a capture exactly when it is clean. -/
theorem stop_trigger_iff {k : Nat} (before : List (Ports w)) (ports : Ports w)
    (takes : (Buffer.powerOn.run (2 ^ k) before).core.StopTakesEffect
      ((Buffer.powerOn.run (2 ^ k) before).edge ports))
    {bursts : Nat} (post : ports.postTrigger.toNat = 2 ^ k * bursts)
    (small : ports.postTrigger.toNat < 2 ^ (w - 1)) :
    StopLaw (2 ^ k) bursts (Buffer.powerOn.run (2 ^ k) before).core
        ((Buffer.powerOn.run (2 ^ k) before).edge ports) ↔
      CleanCapture bursts (Buffer.powerOn.run (2 ^ k) before).core
        ((Buffer.powerOn.run (2 ^ k) before).edge ports) := by
  have positive : 0 < 2 ^ k := Nat.two_pow_pos k
  have finds := Buffer.stopFinds (2 ^ k) before ports takes
  rw [post] at small
  have postEdge : ((Buffer.powerOn.run (2 ^ k) before).edge ports).postTrigger =
      BitVec.ofNat w (2 ^ k * bursts) := by
    rw [← post, BitVec.ofNat_toNat, BitVec.setWidth_eq]
    rfl
  exact ⟨fun law =>
    ⟨fun enabled other => law.fresh small positive finds takes postEdge enabled other,
      law.ahead finds takes, law.early finds takes⟩,
    fun clean => clean.stopLaw small positive finds takes postEdge⟩

/-- Inputs with a word in the FIFO, both ready lines high and wrap-around, in a memory of eight
addresses. -/
def Buffer.flowing (postTrigger : BitVec 4) : Ports 4 :=
  { Ports.low with
    appRdy := true, appWdfRdy := true, wrWrapAround := true, indataFifoEmpty := false
    postTrigger := postTrigger }

/-- A write start in the first clock and a stop in the fourth: the stop pulse meets the first
command. -/
def Buffer.startThenStop : List (Ports 4) :=
  [{ flowing 0 with wrStart := true }, flowing 0, flowing 0, { flowing 0 with wrStop := true },
    flowing 0, flowing 0, flowing 0]

/-- A stop with two bursts to follow, the first of them accepted at the capture. -/
theorem stop_trigger_two_bursts :
    writes ((Buffer.powerOn.run 2 Buffer.startThenStop).core.busEvents
        ((Buffer.powerOn.run 2 Buffer.startThenStop).edge (Buffer.flowing 4))) = [0] ∧
      StopLaw 2 2 (Buffer.powerOn.run 2 Buffer.startThenStop).core
        ((Buffer.powerOn.run 2 Buffer.startThenStop).edge (Buffer.flowing 4)) :=
  ⟨by decide,
    (stop_trigger_iff (k := 1) Buffer.startThenStop (Buffer.flowing 4) (by decide) (by decide)
      (by decide)).mpr ⟨by decide, by decide, by decide⟩⟩

/-- With none to follow the same stop has written one burst too many, and does not end. -/
theorem stop_trigger_missed :
    (Buffer.powerOn.run 2 Buffer.startThenStop).core.StopTakesEffect
        ((Buffer.powerOn.run 2 Buffer.startThenStop).edge (Buffer.flowing 0)) ∧
      (Clocked.run (Core.clock 2) (Buffer.powerOn.run 2 Buffer.startThenStop).core
        ((Buffer.powerOn.run 2 Buffer.startThenStop).edge (Buffer.flowing 0) ::
          List.replicate 8 .ready)).wrBusy = true ∧
      ¬StopLaw 2 0 (Buffer.powerOn.run 2 Buffer.startThenStop).core
        ((Buffer.powerOn.run 2 Buffer.startThenStop).edge (Buffer.flowing 0)) := by
  refine ⟨by decide, by decide, fun law => ?_⟩
  exact absurd (law [] (by simp)).inOrder (by decide)

end K71GbE.Sdram
