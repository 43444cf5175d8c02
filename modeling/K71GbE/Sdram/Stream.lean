/-
This file joins `sdram_buffer_fifo` with the input FIFO that feeds it and
follows the words of the stream into the memory controller.

The write FSM pops the FIFO in the first clock in which it presents a beat, and
the beat on the bus is the FIFO's output itself. The word on the bus is
therefore the word popped only as long as the beat is accepted in that same
clock; the invariant below holds exactly under that condition.
-/

import K71GbE.Sdram.WriteRun
import K71GbE.Clocked.Fifo

namespace K71GbE.Sdram

open BusEvent

variable {w : Nat} {Word : Type*} {burst : Nat} {words : Nat → Word}

/-! ### The buffer behind its input FIFO -/

/-- The ports of the entity, how many words become visible in the input FIFO at this edge, and
what an empty FIFO shows. -/
structure StreamPorts (w : Nat) (Word : Type*) extends Ports w where
  arriving : Nat
  junk : Word

/-- `sdram_buffer_fifo` with its input FIFO. -/
structure Stream (w : Nat) where
  buffer : Buffer w
  indata : Clocked.Fwft

namespace Stream

def powerOn : Stream w := ⟨Buffer.powerOn, Clocked.Fwft.new⟩

/-- The ports with the empty flag of the FIFO. -/
def ports (stream : Stream w) (input : StreamPorts w Word) : Ports w :=
  { input.toPorts with indataFifoEmpty := stream.indata.empty }

/-- What the processes see at an edge. -/
def edge (stream : Stream w) (input : StreamPorts w Word) : Edge w :=
  stream.buffer.edge (stream.ports input)

/-- One rising edge of `CLK`; `fifo_rst` empties the FIFO. -/
def clock (burst : Nat) (stream : Stream w) (input : StreamPorts w Word) : Stream w where
  buffer := stream.buffer.clock burst (stream.ports input)
  indata :=
    if input.reset || input.dataFifoReset then stream.indata.flush
    else stream.indata.clock stream.buffer.core.writer.indataFifoRden input.arriving

/-- The processes of the buffer run on the edges of the stream. -/
theorem core_clock (stream : Stream w) (input : StreamPorts w Word) :
    (stream.clock burst input).buffer.core =
      stream.buffer.core.clock burst (stream.edge input) := rfl

/-- The word on `APP_WDF_DATA` when a beat is accepted. -/
def beatWords (words : Nat → Word) (stream : Stream w) (input : StreamPorts w Word) : List Word :=
  if (stream.buffer.core.settle (stream.ports input)).beatAccepted (stream.ports input) then
    [stream.indata.dout words input.junk]
  else []

/-- The beats the memory controller accepts during a run from power-on. -/
def beats (burst : Nat) (words : Nat → Word) (inputs : List (StreamPorts w Word)) : List Word :=
  Clocked.log (clock burst) (beatWords words) powerOn inputs

/-- The edges the processes see during a run from power-on. -/
def edges (burst : Nat) (inputs : List (StreamPorts w Word)) : List (Edge w) :=
  Clocked.feed (clock burst) edge powerOn inputs

/-- The WRITE commands the memory controller accepts during a run from power-on. -/
def commands (burst : Nat) (inputs : List (StreamPorts w Word)) : List (BitVec w) :=
  writes (Core.busLog burst Core.powerOn (edges burst inputs))

/-- The memory controller takes the beat in the clock in which its word is popped. -/
def TakenWhenPopped (stream : Stream w) (input : StreamPorts w Word) : Prop :=
  stream.buffer.core.writer.indataFifoRden = true → input.appWdfRdy = true

instance (stream : Stream w) (input : StreamPorts w Word) :
    Decidable (stream.TakenWhenPopped input) :=
  inferInstanceAs (Decidable (_ → _))

end Stream

/-! ### Beats against popped words -/

/-- Between two edges: the accepted beats are the popped words, and a word on the bus is about
to be popped. -/
structure StreamRun (words : Nat → Word) (stream : Stream w) (beats : List Word) : Prop where
  beats_eq : beats = (List.range stream.indata.popped).map words
  pops : stream.buffer.core.writer.indataFifoRden = true ↔
    stream.buffer.core.writer.writeState = .W1
  presents : stream.buffer.core.writer.wrWdfWren = true ↔
    stream.buffer.core.writer.writeState = .W1
  visible : stream.buffer.core.writer.writeState = .W1 → stream.indata.empty = false

theorem StreamRun.powerOn : StreamRun words (Stream.powerOn : Stream w) [] := by
  constructor <;> simp [Stream.powerOn, Buffer.powerOn, Core.powerOn, Core.asyncReset,
    Clocked.Fwft.new]

section Step

variable {stream : Stream w} {input : StreamPorts w Word} {beats : List Word}

/-- Outside reset the FIFO is clocked, and its output is on the bus with the beat. -/
theorem Stream.running_step (burst : Nat) (words : Nat → Word)
    (running : (stream.edge input).inReset = false)
    (kept : input.dataFifoReset = false) :
    (stream.clock burst input).buffer.core.writer =
        writeProcess burst stream.buffer.core (stream.edge input) ∧
      (stream.clock burst input).indata =
        stream.indata.clock stream.buffer.core.writer.indataFifoRden input.arriving ∧
      stream.beatWords words input =
        if stream.buffer.core.writer.wrWdfWren && input.appWdfRdy then
          [stream.indata.dout words input.junk]
        else [] := by
  have ports : (stream.ports input).inReset = false := running
  have noReset : input.reset = false := by
    simp only [Stream.ports, Ports.inReset, Bool.or_eq_false_iff] at ports
    exact ports.1
  refine ⟨?_, ?_, ?_⟩
  · exact congrArg Core.writer (Core.clock_of_running running)
  · simp only [Stream.clock, noReset, kept, Bool.or_self, Bool.false_eq_true, if_false]
  · rw [Stream.beatWords, Core.settle_of_running ports]
    rfl

/-- An edge that finds no word on the bus keeps the invariant, whatever the write FSM does
next. -/
theorem StreamRun.step_of_ne (run : StreamRun words stream beats)
    (running : (stream.edge input).inReset = false) (kept : input.dataFifoReset = false)
    (state : stream.buffer.core.writer.writeState ≠ .W1) {next : Writer w}
    (moved : writeProcess burst stream.buffer.core (stream.edge input) = next)
    (pops : next.indataFifoRden = true ↔ next.writeState = .W1)
    (presents : next.wrWdfWren = true ↔ next.writeState = .W1)
    (visible : next.writeState = .W1 → stream.indata.empty = false) :
    StreamRun words (stream.clock burst input) (beats ++ stream.beatWords words input) := by
  obtain ⟨writer, clocked, word⟩ := Stream.running_step burst words running kept
  have noPop : stream.buffer.core.writer.indataFifoRden = false := by
    simpa [state] using run.pops
  have noBeat : stream.buffer.core.writer.wrWdfWren = false := by
    simpa [state] using run.presents
  rw [word, noBeat, Bool.false_and, if_neg Bool.false_ne_true, List.append_nil]
  refine ⟨?_, ?_, ?_, fun entered => ?_⟩
  · rw [clocked, noPop, Clocked.Fwft.clock_popped_of_not_pops rfl]
    exact run.beats_eq
  · rwa [writer, moved]
  · rwa [writer, moved]
  · rw [writer, moved] at entered
    rw [clocked, noPop]
    exact Clocked.Fwft.empty_clock_of_not_popped (visible entered) rfl

/-- An edge outside reset without a start, or one that starts an idle buffer to write, keeps the
invariant when a word that is popped is also taken. -/
theorem StreamRun.step_noStart (burst : Nat) (run : StreamRun words stream beats)
    (edge : (stream.edge input).NoStart ∨
      (stream.edge input).StartsWriting ∧ stream.buffer.core.Idle)
    (kept : input.dataFifoReset = false) (taken : stream.TakenWhenPopped input) :
    StreamRun words (stream.clock burst input) (beats ++ stream.beatWords words input) := by
  rcases edge with ⟨running, noWrite, _⟩ | ⟨starts, idle⟩
  · have process : writeProcess burst stream.buffer.core (stream.edge input) =
        writeFsm burst stream.buffer.core (stream.edge input) :=
      writeProcess_of_noStart noWrite
    have moved := writeFsm_step burst stream.buffer.core (stream.edge input)
    generalize writeFsm burst stream.buffer.core (stream.edge input) = next at moved process
    cases moved with
    | wait state _ | holdCommand state _ _ | abandon state _ _ | command state _ =>
      exact run.step_of_ne running kept (by simp [state]) process (by simp) (by simp) (by simp)
    | others state =>
      exact run.step_of_ne running kept (by rcases state with state | state <;> simp [state])
        process (by simp) (by simp) (by simp)
    | present state visible _ =>
      exact run.step_of_ne running kept (by simp [state]) process (by simp) (by simp)
        fun _ => visible
    | holdBeat state stall =>
      have ready := taken (run.pops.mpr state)
      exact absurd (show (stream.edge input).appWdfRdy = true from ready) (by simp [stall])
    | beat state ready =>
      obtain ⟨writer, clocked, word⟩ := Stream.running_step burst words running kept
      have visible := run.visible state
      have ready : input.appWdfRdy = true := ready
      have pop : stream.indata.pops stream.buffer.core.writer.indataFifoRden = true := by
        simp [Clocked.Fwft.pops, run.pops.mpr state, visible]
      rw [word, run.presents.mpr state, ready, Bool.and_self, if_pos rfl,
        Clocked.Fwft.dout_visible words input.junk visible]
      refine ⟨?_, ?_, ?_, ?_⟩ <;> try rw [writer, process]
      · rw [clocked, Clocked.Fwft.clock_popped_of_pops pop, List.range_succ, List.map_append,
          List.map_singleton, ← run.beats_eq]
      · simp
      · simp
      · simp
  · have process : writeProcess burst stream.buffer.core (stream.edge input) =
        ⟨(stream.edge input).wrAddrBegin, .W0, false, false, false, false⟩ := by
      rw [writeProcess_of_start starts.2.1, idle.writeFsm_eq]
    exact run.step_of_ne starts.1 kept (by simp [idle.writeRests]) process (by simp) (by simp)
      (by simp)

/-- The same for an edge that is quiet, or starts an idle buffer. -/
theorem StreamRun.step (run : StreamRun words stream beats)
    (edge : (stream.edge input).Quiet ∨
      (stream.edge input).StartsWriting ∧ stream.buffer.core.Idle)
    (kept : input.dataFifoReset = false) (taken : stream.TakenWhenPopped input) :
    StreamRun words (stream.clock burst input) (beats ++ stream.beatWords words input) :=
  run.step_noStart burst (edge.imp_left Edge.Quiet.noStart) kept taken

end Step

/-! ### The stream law -/

/-- The write stream arrives whole: the `k`-th accepted beat carries the `k`-th word, and the
`k`-th accepted WRITE command goes to the `k`-th address. -/
structure StreamIntact (burst : Nat) (words : Nat → Word) (inputs : List (StreamPorts w Word))
    (begin : BitVec w) : Prop where
  beat : ∀ k (accepted : k < (Stream.beats burst words inputs).length),
    (Stream.beats burst words inputs)[k] = words k
  address : ∀ k (accepted : k < (Stream.commands burst inputs).length),
    ((Stream.commands burst inputs)[k]).toNat = (begin.toNat + burst * k) % 2 ^ (w - 1)

/-- The beats of a run are an initial part of the words when every popped word is taken. -/
theorem Stream.beats_eq (words : Nat → Word) {inputs : List (StreamPorts w Word)} {start : Edge w}
    (one : OneWriteStart (Stream.edges burst inputs) start)
    (kept : ∀ input ∈ inputs, input.dataFifoReset = false)
    (taken : Clocked.Along (Stream.clock burst) Stream.TakenWhenPopped Stream.powerOn inputs) :
    ∃ popped, Stream.beats burst words inputs = (List.range popped).map words := by
  have edges : Clocked.Along (Stream.clock burst)
      (fun stream input => (stream.edge input).Quiet ∨
        (stream.edge input).StartsWriting ∧ stream.buffer.core.Idle)
      Stream.powerOn inputs :=
    (Clocked.along_feed (fun stream => stream.buffer.core) Stream.edge Stream.core_clock _
      Stream.powerOn inputs).mp (one.along burst Core.idle_powerOn)
  have keeps : Clocked.Along (Stream.clock burst)
      (fun _ (input : StreamPorts w Word) => input.dataFifoReset = false) Stream.powerOn inputs :=
    Clocked.along_of_forall fun _ => kept
  have ran := Clocked.log_invariant (StreamRun words)
    (fun stream input beats run admitted =>
      run.step admitted.1.1 admitted.1.2 admitted.2)
    StreamRun.powerOn ((edges.and keeps).and taken)
  exact ⟨_, ran.beats_eq⟩

/-- With one write start, a stream whose words are taken in the clock in which they are popped
arrives whole, under every schedule of the FIFO and of the ready lines. -/
theorem write_stream (words : Nat → Word) (inputs : List (StreamPorts w Word)) (start : Edge w)
    (one : OneWriteStart (Stream.edges burst inputs) start)
    (kept : ∀ input ∈ inputs, input.dataFifoReset = false)
    (taken : Clocked.Along (Stream.clock burst) Stream.TakenWhenPopped Stream.powerOn inputs) :
    StreamIntact burst words inputs start.wrAddrBegin := by
  constructor
  · obtain ⟨popped, beats⟩ := Stream.beats_eq words one kept taken
    intro k accepted
    rw [List.getElem_of_eq beats accepted, List.getElem_map, List.getElem_range]
  · have commands : Stream.commands burst inputs =
        commandAddresses burst start.wrAddrBegin (Stream.commands burst inputs).length :=
      (one.run burst Core.idle_powerOn).commands_eq
    intro k accepted
    rw [List.getElem_of_eq commands accepted, getElem_commandAddresses]
    exact memoryAddress_burstAddress _ _

/-! ### Two schedules -/

/-- A write start with three words in the FIFO: both ready lines are low for `stalled` clocks and
then high. -/
def Stream.startAndStall (stalled ready : Nat) : List (StreamPorts 4 Nat) :=
  ⟨{ Ports.low with wrStart := true }, 3, 0⟩ ::
    (List.replicate stalled ⟨Ports.low, 0, 0⟩ ++
      List.replicate ready ⟨{ Ports.low with appRdy := true, appWdfRdy := true }, 0, 0⟩)

/-- The edge at which that start reaches the processes. -/
def Stream.startEdge : Edge 4 :=
  { (Ports.low : Ports 4) with
    indataFifoEmpty := false, wrStartPulse := true, wrStopPulse := false, rdStartPulse := false }

/-- With the ready lines up in time the three words arrive at addresses 0, 2 and 4. -/
theorem write_stream_ready :
    Stream.beats 2 (fun k => k) (Stream.startAndStall 4 9) = [0, 1, 2] ∧
      Stream.commands 2 (Stream.startAndStall 4 9) = [0, 2, 4] ∧
      StreamIntact 2 (fun k => k) (Stream.startAndStall 4 9) 0 :=
  ⟨by decide, by decide,
    write_stream (fun k => k) (Stream.startAndStall 4 9) Stream.startEdge
      ⟨(Stream.edges 2 (Stream.startAndStall 4 9)).take 4,
        (Stream.edges 2 (Stream.startAndStall 4 9)).drop 5,
        by decide, by decide, by decide, by decide⟩
      (by decide) (by decide)⟩

/-- One clock of stall in the clock of the pop, and the first beat carries the second word. -/
theorem write_stream_stalled :
    OneWriteStart (Stream.edges 2 (Stream.startAndStall 6 8)) Stream.startEdge ∧
      (∀ input ∈ Stream.startAndStall 6 8, input.dataFifoReset = false) ∧
      Stream.beats 2 (fun k => k) (Stream.startAndStall 6 8) = [1, 1, 2] ∧
      ¬StreamIntact 2 (fun k => k) (Stream.startAndStall 6 8) Stream.startEdge.wrAddrBegin := by
  refine ⟨⟨(Stream.edges 2 (Stream.startAndStall 6 8)).take 4,
    (Stream.edges 2 (Stream.startAndStall 6 8)).drop 5,
    by decide, by decide, by decide, by decide⟩, by decide, by decide, fun intact => ?_⟩
  exact absurd (intact.beat 0 (by decide)) (by decide)

end K71GbE.Sdram
