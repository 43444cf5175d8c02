/-
This file follows the words of the input stream into the memory and out of it
again.

An acquisition is one write run of an idle buffer, ended by a stop or by the end
of the memory. The memory controller stores the accepted beats under the accepted
WRITE commands, in their order, so the memory is a ring of bursts that holds the
latest lap. A read run then pushes these words, from any burst of the ring on.
-/

import K71GbE.Clocked.RingStore
import K71GbE.Sdram.Coverage
import K71GbE.Sdram.ReadRun
import K71GbE.Sdram.Stream

namespace K71GbE.Sdram

open Clocked BusEvent

variable {w : Nat} {Word : Type*} {burst : Nat} {words : Nat → Word}

/-- One write start is delivered, at `start`, and no other start or reset; stops may be. -/
def Acquires (edges : List (Edge w)) (start : Edge w) : Prop :=
  ∃ before after, edges = before ++ start :: after ∧ (∀ edge ∈ before, edge.NoStart) ∧
    start.StartsWriting ∧ ∀ edge ∈ after, edge.NoStart

namespace Stream

/-- The state after a run. -/
def run (burst : Nat) (stream : Stream w) (inputs : List (StreamPorts w Word)) : Stream w :=
  Clocked.run (clock burst) stream inputs

/-- The edges the processes see during a run. -/
def edgesFrom (burst : Nat) (stream : Stream w) (inputs : List (StreamPorts w Word)) :
    List (Edge w) :=
  feed (clock burst) edge stream inputs

/-- The WRITE command the memory controller accepts at an edge. -/
def command (stream : Stream w) (input : StreamPorts w Word) : List (BitVec w) :=
  writes (stream.buffer.core.busEvents (stream.edge input))

/-- The WRITE commands the memory controller accepts during a run. -/
def commandsFrom (burst : Nat) (stream : Stream w) (inputs : List (StreamPorts w Word)) :
    List (BitVec w) :=
  log (clock burst) command stream inputs

/-- The beats the memory controller accepts during a run. -/
def beatsFrom (burst : Nat) (words : Nat → Word) (stream : Stream w)
    (inputs : List (StreamPorts w Word)) : List Word :=
  log (clock burst) (beatWords words) stream inputs

/-- The memory controller stores the next beat under the next command. -/
def stored (burst : Nat) (words : Nat → Word) (stream : Stream w)
    (inputs : List (StreamPorts w Word)) : List (BitVec w × Word) :=
  (stream.commandsFrom burst inputs).zip (stream.beatsFrom burst words inputs)

end Stream

/-! ### What is recorded -/

/-- A write run from `begin` that takes the words from word `first` on: the commands and the beats
accepted so far. -/
structure Recording (burst : Nat) (words : Nat → Word) (begin : BitVec w) (first : Nat)
    (stream : Stream w) (commands : List (BitVec w)) (beats : List Word) : Prop where
  run : WriteRun burst begin stream.buffer.core commands
  streamed : StreamRun words stream ((List.range first).map words ++ beats)
  paired : commands.length ≤ beats.length
  owed : stream.buffer.core.writer.writeState = .W2 → commands.length < beats.length

section Recording

variable {begin : BitVec w} {first : Nat} {stream : Stream w} {commands : List (BitVec w)}
  {beats : List Word} {input : StreamPorts w Word}

/-- An idle buffer has taken the words that its FIFO has popped. -/
theorem Core.Idle.streamed (words : Nat → Word) (idle : stream.buffer.core.Idle) :
    StreamRun words stream ((List.range stream.indata.popped).map words) := by
  constructor <;> simp [idle.noPop, idle.noBeat, idle.writeRests]

/-- An idle buffer has nothing accepted outside reset. -/
theorem Core.Idle.silent (idle : stream.buffer.core.Idle)
    (running : (stream.edge input).inReset = false) (words : Nat → Word) :
    stream.command input = [] ∧ stream.beatWords words input = [] := by
  have ports : (stream.ports input).inReset = false := running
  refine ⟨?_, ?_⟩
  · rw [Stream.command, idle.busEvents running]
    rfl
  · rw [Stream.beatWords, Core.settle_of_running ports, Core.beatAccepted, idle.noBeat,
      Bool.false_and, if_neg Bool.false_ne_true]

/-- The start takes an idle buffer into its recording. -/
theorem Recording.ofStart (burst : Nat) (idle : stream.buffer.core.Idle)
    (streamed : StreamRun words stream ((List.range first).map words))
    (starts : (stream.edge input).StartsWriting) (kept : input.dataFifoReset = false) :
    Recording burst words (stream.edge input).wrAddrBegin first (stream.clock burst input)
      [] [] := by
  have popless : stream.TakenWhenPopped input := fun pops => by
    rw [idle.noPop] at pops
    cases pops
  have next := streamed.step_noStart burst (.inr ⟨starts, idle⟩) kept popless
  rw [(idle.silent starts.1 words).2, List.append_nil] at next
  have run := WriteRun.ofStart burst idle starts
  rw [← Stream.core_clock] at run
  refine ⟨run, by rwa [List.append_nil], le_rfl, fun state => ?_⟩
  rw [Stream.core_clock, Core.clock_of_running starts.1, writeProcess_of_start starts.2.1] at state
  cases state

/-- An edge without a start keeps the invariant when a word that is popped is also taken. -/
theorem Recording.step (recording : Recording burst words begin first stream commands beats)
    (noStart : (stream.edge input).NoStart) (kept : input.dataFifoReset = false)
    (taken : stream.TakenWhenPopped input) :
    Recording burst words begin first (stream.clock burst input)
      (commands ++ stream.command input) (beats ++ stream.beatWords words input) := by
  obtain ⟨run, streamed, paired, owed⟩ := recording
  have moved := writeFsm_step burst stream.buffer.core (stream.edge input)
  obtain ⟨writer, _, word⟩ := Stream.running_step burst words noStart.1 kept
  rw [writeProcess_of_noStart noStart.2.1] at writer
  have next := streamed.step_noStart burst (.inl noStart) kept taken
  rw [List.append_assoc] at next
  have few := run.length_writes noStart.1
  refine ⟨run.step_noStart noStart, next, ?_, fun state => ?_⟩ <;>
    rw [List.length_append, List.length_append, Stream.command]
  · rcases few with nothing | ⟨one, _, state, _⟩
    · omega
    · have owes := owed state
      omega
  · rw [writer] at state
    generalize writeFsm burst stream.buffer.core (stream.edge input) = next at moved state
    cases moved with
    | wait | present | holdBeat | abandon | command | others => cases state
    | holdCommand before stall =>
      rcases few with nothing | ⟨_, _, _, ready⟩
      · have owes := owed before
        omega
      · rw [stall] at ready
        cases ready
    | beat before ready =>
      have presented : (stream.buffer.core.writer.wrWdfWren && input.appWdfRdy) = true := by
        rw [streamed.presents.mpr before, Bool.true_and]
        exact ready
      rw [word, if_pos presented, List.length_singleton]
      rcases few with nothing | ⟨_, _, state, _⟩
      · omega
      · rw [before] at state
        cases state

/-- Edges without a start keep the invariant. -/
theorem Recording.runs (recording : Recording burst words begin first stream commands beats)
    {inputs : List (StreamPorts w Word)}
    (noStart : ∀ edge ∈ stream.edgesFrom burst inputs, edge.NoStart)
    (kept : ∀ input ∈ inputs, input.dataFifoReset = false)
    (taken : Along (Stream.clock burst) Stream.TakenWhenPopped stream inputs) :
    Recording burst words begin first (stream.run burst inputs)
      (commands ++ stream.commandsFrom burst inputs)
      (beats ++ stream.beatsFrom burst words inputs) := by
  induction inputs generalizing stream commands beats with
  | nil =>
    rw [Stream.commandsFrom, Stream.beatsFrom, log_nil, log_nil, List.append_nil, List.append_nil]
    exact recording
  | cons input rest inductionHypothesis =>
    obtain ⟨here, later⟩ := List.forall_mem_cons.mp noStart
    obtain ⟨keptHere, keptLater⟩ := List.forall_mem_cons.mp kept
    have tail := inductionHypothesis (recording.step here keptHere taken.1) later keptLater taken.2
    rwa [List.append_assoc, List.append_assoc] at tail

/-- Until a start reaches it, an idle buffer takes nothing. -/
theorem Core.Idle.quietStream (burst : Nat) (idle : stream.buffer.core.Idle)
    (streamed : StreamRun words stream ((List.range first).map words))
    {inputs : List (StreamPorts w Word)}
    (noStart : ∀ edge ∈ stream.edgesFrom burst inputs, edge.NoStart)
    (kept : ∀ input ∈ inputs, input.dataFifoReset = false) :
    (stream.run burst inputs).buffer.core.Idle ∧
      StreamRun words (stream.run burst inputs) ((List.range first).map words) ∧
      stream.commandsFrom burst inputs = [] ∧ stream.beatsFrom burst words inputs = [] := by
  induction inputs generalizing stream with
  | nil => exact ⟨idle, streamed, rfl, rfl⟩
  | cons input rest inductionHypothesis =>
    obtain ⟨here, later⟩ := List.forall_mem_cons.mp noStart
    obtain ⟨keptHere, keptLater⟩ := List.forall_mem_cons.mp kept
    obtain ⟨noCommand, noBeat⟩ := idle.silent here.1 words
    have popless : stream.TakenWhenPopped input := fun pops => by
      rw [idle.noPop] at pops
      cases pops
    have next := streamed.step_noStart burst (.inl here) keptHere popless
    rw [noBeat, List.append_nil] at next
    obtain ⟨idleAfter, streamedAfter, commands, beats⟩ :=
      inductionHypothesis (idle.clock burst here) next later keptLater
    refine ⟨idleAfter, streamedAfter, ?_, ?_⟩
    · rw [Stream.commandsFrom, log_cons, noCommand, List.nil_append]
      exact commands
    · rw [Stream.beatsFrom, log_cons, noBeat, List.nil_append]
      exact beats

/-- An acquisition of an idle buffer is a recording. -/
theorem Acquires.recording (words : Nat → Word) {inputs : List (StreamPorts w Word)}
    {start : Edge w} (acquires : Acquires (stream.edgesFrom burst inputs) start)
    (idle : stream.buffer.core.Idle) (kept : ∀ input ∈ inputs, input.dataFifoReset = false)
    (taken : Along (Stream.clock burst) Stream.TakenWhenPopped stream inputs) :
    Recording burst words start.wrAddrBegin stream.indata.popped (stream.run burst inputs)
      (stream.commandsFrom burst inputs) (stream.beatsFrom burst words inputs) := by
  obtain ⟨before, after, split, noStartBefore, starts, noStartAfter⟩ := acquires
  obtain ⟨early, input, late, rfl, fed, driven, rest⟩ := feed_eq_append_cons split
  have driven : (stream.run burst early).edge input = start := driven
  subst driven fed rest
  have keptInput := kept input (List.mem_append_right _ List.mem_cons_self)
  obtain ⟨_, _, takenLate⟩ := (along_append _ _ _ _ _).mp taken
  obtain ⟨idleBefore, streamed, noCommands, noBeats⟩ :=
    idle.quietStream burst (idle.streamed words) noStartBefore
      fun input member => kept input (List.mem_append_left _ member)
  obtain ⟨noCommand, noBeat⟩ := idleBefore.silent starts.1 words
  have run : stream.run burst (early ++ input :: late) =
      ((stream.run burst early).clock burst input).run burst late := run_append _ _ _ _
  have commands : stream.commandsFrom burst (early ++ input :: late) =
      ((stream.run burst early).clock burst input).commandsFrom burst late := by
    rw [Stream.commandsFrom] at noCommands
    rw [Stream.commandsFrom, log_append, noCommands, log_cons]
    exact congrArg (· ++ _) noCommand
  have beats : stream.beatsFrom burst words (early ++ input :: late) =
      ((stream.run burst early).clock burst input).beatsFrom burst words late := by
    rw [Stream.beatsFrom] at noBeats
    rw [Stream.beatsFrom, log_append, noBeats, log_cons]
    exact congrArg (· ++ _) noBeat
  rw [run, commands, beats]
  exact (Recording.ofStart burst idleBefore streamed starts keptInput).runs noStartAfter
    (fun input member => kept input
      (List.mem_append_right _ (List.mem_cons_of_mem _ member))) takenLate

end Recording

/-! ### The ring in the memory -/

/-- A read run of an idle path has pushed the words at the first addresses of its range, and all of
them once it is over. -/
theorem OneReadStart.pushed (memory : BitVec w → Word) (positive : 0 < burst) {path : ReadPath w}
    (idle : path.Idle) {reads : List (ReadPorts w)} {start : Edge w}
    (one : OneReadStart (path.edges burst reads) start)
    (high : start.rdAddrEnd.toNat + burst ≤ 2 ^ w) :
    ∃ count, count ≤ burstCount burst start.rdAddrBegin start.rdAddrEnd ∧
      path.words burst memory reads =
        (commandAddresses burst start.rdAddrBegin count).map memory ∧
      ((path.run burst reads).buffer.core.rdBusy = false →
        count = burstCount burst start.rdAddrBegin start.rdAddrEnd) := by
  obtain ⟨before, after, split, noStartBefore, starts, noStartAfter⟩ := one
  obtain ⟨early, input, late, rfl, fed, driven, rest⟩ := feed_eq_append_cons split
  have driven : (path.run burst early).edge input = start := driven
  have rest : ((path.run burst early).clock burst input).edges burst late = after := rest
  subst driven rest
  obtain ⟨idleBefore, silent, _⟩ := idle.run burst memory (by rwa [ReadPath.edges, fed])
  obtain ⟨run, _⟩ :=
    (ReadRun.ofStart burst memory idleBefore starts).run positive high noStartAfter
  have words : path.words burst memory (early ++ input :: late) =
      ((path.run burst early).clock burst input).words burst memory late := by
    have atStart : ReadPath.pushed memory (path.run burst early) input = [] := by
      rw [ReadPath.pushed, idleBefore.pushes, if_neg Bool.false_ne_true]
    rw [ReadPath.words] at silent
    rw [ReadPath.words, log_append, silent, List.nil_append, log_cons]
    exact congrArg (· ++ _) atStart
  have ran : path.run burst (early ++ input :: late) =
      ((path.run burst early).clock burst input).run burst late := run_append _ _ _ _
  rw [words, ran]
  exact ⟨_, run.bound, run.words_eq, run.finished⟩

/-- Both ready lines high, with wrap-around and two bursts after a stop. -/
def Stream.flowing : StreamPorts 4 Nat :=
  ⟨{ Ports.low with
      appRdy := true, appWdfRdy := true, wrWrapAround := true, postTrigger := 4 }, 0, 0⟩

/-- A write start with nine words in the FIFO, and a stop seventeen clocks later. -/
def Stream.startAndStop (clocks : Nat) : List (StreamPorts 4 Nat) :=
  { flowing with wrStart := true, arriving := 9 } ::
    (List.replicate 16 flowing ++ { flowing with wrStop := true } :: List.replicate clocks flowing)

end K71GbE.Sdram
