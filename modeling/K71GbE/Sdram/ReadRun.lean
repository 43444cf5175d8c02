/-
This file joins `sdram_buffer_fifo` with the memory controller that answers its
READ commands and with the full flag of its output FIFO, and follows one read
run.

The read FSM has at most one command under way. It looks at the full flag before
it issues a command; the flag cannot rise before the word of that command is
pushed, since no other word is. The end of the run is noticed one clock late, so
a further command may be accepted, but its data finds `rd_reading` low.
-/

import K71GbE.Sdram.WriteRun

namespace K71GbE.Sdram

variable {w : Nat} {Word : Type*} {burst : Nat} {mem : BitVec w → Word}

/-! ### The buffer between memory controller and output FIFO -/

/-- The ports of the entity; whether the memory controller answers, if it owes an answer; whether
the reading side of the output FIFO makes room, and whether a push fills it. -/
structure ReadPorts (w : Nat) extends Ports w where
  answers : Bool
  drained : Bool
  fills : Bool

/-- `sdram_buffer_fifo`, the addresses of the accepted READ commands that are not answered yet,
and the full flag of the output FIFO. -/
structure ReadPath (w : Nat) where
  buffer : Buffer w
  outstanding : List (BitVec w)
  outdataFull : Bool

namespace ReadPath

/-- The ports with the answer of the memory controller and the full flag. -/
def ports (path : ReadPath w) (input : ReadPorts w) : Ports w :=
  { input.toPorts with
    appRdDataValid := input.answers && !path.outstanding.isEmpty
    outdataFifoFull := path.outdataFull }

/-- What the processes see at an edge. -/
def edge (path : ReadPath w) (input : ReadPorts w) : Edge w :=
  path.buffer.edge (path.ports input)

/-- The state of the processes in force at an edge. -/
def settled (path : ReadPath w) (input : ReadPorts w) : Core w :=
  path.buffer.core.settle (path.ports input)

/-- A word is pushed into the output FIFO at this edge. -/
def pushes (path : ReadPath w) (input : ReadPorts w) : Bool :=
  (path.settled input).outdataFifoWren (path.ports input)

/-- One rising edge of `CLK`. The memory controller answers in order, at the earliest one clock
after the command; the full flag rises only at a push. -/
def clock (burst : Nat) (path : ReadPath w) (input : ReadPorts w) : ReadPath w where
  buffer := path.buffer.clock burst (path.ports input)
  outstanding :=
    (if (path.ports input).appRdDataValid then path.outstanding.tail else path.outstanding) ++
      (if (path.settled input).readAccepted (path.ports input) then
        [(path.settled input).appAddr]
      else [])
  outdataFull :=
    if path.pushes input then input.fills else path.outdataFull && !input.drained

/-- The word pushed at an edge: the memory word of the oldest unanswered command. -/
def pushed (mem : BitVec w → Word) (path : ReadPath w) (input : ReadPorts w) : List Word :=
  if path.pushes input then path.outstanding.head?.toList.map mem else []

/-- The state after a run. -/
def run (burst : Nat) (path : ReadPath w) (inputs : List (ReadPorts w)) : ReadPath w :=
  Clocked.run (clock burst) path inputs

/-- The words pushed into the output FIFO during a run. -/
def words (burst : Nat) (mem : BitVec w → Word) (path : ReadPath w)
    (inputs : List (ReadPorts w)) : List Word :=
  Clocked.log (clock burst) (pushed mem) path inputs

/-- The edges the processes see during a run. -/
def edges (burst : Nat) (path : ReadPath w) (inputs : List (ReadPorts w)) : List (Edge w) :=
  Clocked.feed (clock burst) edge path inputs

/-- The processes of the buffer run on the edges of the path. -/
theorem core_clock (burst : Nat) (path : ReadPath w) (input : ReadPorts w) :
    (path.clock burst input).buffer.core = path.buffer.core.clock burst (path.edge input) := rfl

end ReadPath

/-- Outside reset, and a read start pulse without a write start beside it. -/
def Edge.StartsReading (edge : Edge w) : Prop :=
  edge.inReset = false ∧ edge.wrStartPulse = false ∧ edge.rdStartPulse = true

instance (edge : Edge w) : Decidable edge.StartsReading :=
  inferInstanceAs (Decidable (_ ∧ _ ∧ _))

/-- One read start is delivered, at `start`, and no other start or reset; stops may be. -/
def OneReadStart (edges : List (Edge w)) (start : Edge w) : Prop :=
  ∃ before after, edges = before ++ start :: after ∧ (∀ edge ∈ before, edge.NoStart) ∧
    start.StartsReading ∧ ∀ edge ∈ after, edge.NoStart

/-! ### The words of a read run -/

/-- `ceil ((end - begin) / burst)`. -/
def burstCount (burst : Nat) (begin finish : BitVec w) : Nat :=
  (finish.toNat - begin.toNat + burst - 1) / burst

/-- The memory words from `begin` on, one for each burst before `finish`. -/
def readWords (burst : Nat) (mem : BitVec w → Word) (begin finish : BitVec w) : List Word :=
  (List.range (burstCount burst begin finish)).map fun i =>
    mem (BitVec.ofNat w ((begin.toNat + burst * i) % 2 ^ (w - 1)))

theorem lt_burstCount (positive : 0 < burst) (begin finish : BitVec w) (i : Nat) :
    i < burstCount burst begin finish ↔ begin.toNat + burst * i < finish.toNat := by
  rw [burstCount, Nat.lt_iff_add_one_le, Nat.le_div_iff_mul_le positive, Nat.mul_comm,
    Nat.mul_succ]
  omega

theorem readWords_eq (begin finish : BitVec w) :
    readWords burst mem begin finish =
      (commandAddresses burst begin (burstCount burst begin finish)).map mem := by
  rw [readWords, commandAddresses, List.map_map]
  refine List.map_congr_left fun i _ => congrArg mem (BitVec.eq_of_toNat_eq ?_)
  have small : (begin.toNat + burst * i) % 2 ^ (w - 1) < 2 ^ w :=
    lt_of_lt_of_le (Nat.mod_lt _ (Nat.two_pow_pos _)) memorySize_le
  rw [memoryAddress_burstAddress, BitVec.toNat_ofNat, Nat.mod_eq_of_lt small]

/-! ### The invariant -/

/-- How far the read FSM is with one burst: nothing asked, the command on the bus, or the command
accepted and unanswered. In the last two bursts are `left` and the output FIFO has room. -/
def ReadStage (left : Prop) (reader : Reader w) (outstanding : List (BitVec w)) (full : Bool) :
    Prop :=
  (reader.readState = .R1 ∧ reader.rdAppEn = false ∧ outstanding = []) ∨
  (reader.readState = .R2 ∧ reader.rdAppEn = true ∧ outstanding = [] ∧ full = false ∧ left) ∨
  (reader.readState = .R3 ∧ reader.rdAppEn = false ∧
    outstanding = [memoryAddress reader.rdAddrI] ∧ full = false ∧ left)

/-- A read run in progress: its bounds, its pointer, which has not overflowed, and its stage. -/
structure ReadGoing (burst : Nat) (begin finish : BitVec w) (path : ReadPath w) (count : Nat) :
    Prop where
  endReg : path.buffer.core.status.rdAddrEndReg = finish
  pointer : path.buffer.core.reader.rdAddrI = burstAddress burst begin count
  room : begin.toNat + burst * count < 2 ^ w
  stage : ReadStage (count < burstCount burst begin finish) path.buffer.core.reader
    path.outstanding path.outdataFull

/-- The state after the read start of a run, against the words pushed since. -/
structure ReadRun (burst : Nat) (mem : BitVec w → Word) (begin finish : BitVec w)
    (path : ReadPath w) (words : List Word) : Prop where
  notWriting : path.buffer.core.status.wrWriting = false
  rests : path.buffer.core.writer.writeState = .W0
  noWrite : path.buffer.core.writer.wrAppEn = false
  words_eq : words = (commandAddresses burst begin words.length).map mem
  bound : words.length ≤ burstCount burst begin finish
  finished : path.buffer.core.status.rdReading = false →
    words.length = burstCount burst begin finish
  going : path.buffer.core.status.rdReading = true →
    ReadGoing burst begin finish path words.length

section Step

variable {begin finish : BitVec w} {path : ReadPath w} {words : List Word} {input : ReadPorts w}

/-- Outside reset a word is pushed when an answer meets a read run. -/
theorem ReadPath.pushes_of_running (running : (path.edge input).inReset = false) :
    path.pushes input =
      ((path.ports input).appRdDataValid && path.buffer.core.status.rdReading) := by
  have ports : (path.ports input).inReset = false := running
  rw [pushes, settled, Core.settle_of_running ports]
  rfl

/-- While the test for the end is false the run has bursts left, and the other way round. -/
theorem ReadRun.readEnd_eq (positive : 0 < burst) (run : ReadRun burst mem begin finish path words)
    (reading : path.buffer.core.status.rdReading = true) :
    path.buffer.core.readEnd = decide (words.length = burstCount burst begin finish) := by
  obtain ⟨endReg, pointer, room, _⟩ := run.going reading
  rw [Core.readEnd, endReg, pointer]
  refine decide_eq_decide.mpr ?_
  have left := lt_burstCount positive begin finish words.length
  rw [BitVec.le_def, burstAddress_toNat, Nat.mod_eq_of_lt room]
  have bound := run.bound
  omega

/-- The processes after an edge without a start. -/
theorem ReadRun.core_step (run : ReadRun burst mem begin finish path words)
    (noStart : (path.edge input).NoStart) :
    (path.clock burst input).buffer.core =
      ⟨statusProcess path.buffer.core (path.edge input),
        ⟨path.buffer.core.writer.wrAddrI, .W0, false, false, false, false⟩,
        readProcess burst path.buffer.core (path.edge input)⟩ := by
  have writer : writeProcess burst path.buffer.core (path.edge input) =
      ⟨path.buffer.core.writer.wrAddrI, .W0, false, false, false, false⟩ := by
    rw [writeProcess_of_noStart noStart.2.1]
    have moved := writeFsm_step burst path.buffer.core (path.edge input)
    generalize writeFsm burst path.buffer.core (path.edge input) = next at moved
    cases moved with
    | wait => rfl
    | present _ _ writing => exact absurd writing (by simp [run.notWriting])
    | holdBeat state | beat state | holdCommand state | abandon state | command state =>
      exact absurd state (by simp [run.rests])
    | others => rfl
  rw [← writer]
  exact Core.clock_of_running noStart.1

/-- The status of a read run after an edge without a start. -/
theorem ReadRun.status_step (run : ReadRun burst mem begin finish path words)
    (noStart : (path.edge input).NoStart) :
    (statusProcess path.buffer.core (path.edge input)).wrWriting = false ∧
      (statusProcess path.buffer.core (path.edge input)).rdAddrEndReg =
        path.buffer.core.status.rdAddrEndReg ∧
      (statusProcess path.buffer.core (path.edge input)).rdReading =
        (path.buffer.core.status.rdReading && !path.buffer.core.readEnd) := by
  obtain ⟨_, noWrite, noRead⟩ := noStart
  rw [statusProcess_eq]
  cases path.buffer.core.readEnd <;> simp [noWrite, noRead, run.notWriting]

/-- A command is accepted when the read FSM has its enable raised. -/
theorem ReadRun.readAccepted_eq (run : ReadRun burst mem begin finish path words)
    (running : (path.edge input).inReset = false) :
    (path.settled input).readAccepted (path.ports input) =
        (path.buffer.core.reader.rdAppEn && input.appRdy) ∧
      (path.settled input).appAddr = memoryAddress path.buffer.core.reader.rdAddrI := by
  have ports : (path.ports input).inReset = false := running
  rw [ReadPath.settled, Core.settle_of_running ports]
  refine ⟨?_, ?_⟩
  · simp [Core.readAccepted, Core.commandAccepted, Core.appEn, Core.appCmd, run.notWriting,
      run.noWrite, ReadPath.ports]
  · simp [Core.appAddr, run.notWriting]

/-- After its end a read run pushes nothing more, whatever is still answered. -/
theorem ReadRun.step_finished (run : ReadRun burst mem begin finish path words)
    (noStart : (path.edge input).NoStart) (ended : path.buffer.core.status.rdReading = false) :
    ReadRun burst mem begin finish (path.clock burst input) (words ++ path.pushed mem input) := by
  have core := run.core_step noStart
  obtain ⟨notWriting, _, reading⟩ := run.status_step noStart
  rw [ended, Bool.false_and] at reading
  have silent : path.pushed mem input = [] := by
    rw [ReadPath.pushed, ReadPath.pushes_of_running noStart.1, ended, Bool.and_false,
      if_neg Bool.false_ne_true]
  rw [silent, List.append_nil]
  refine ⟨?_, ?_, ?_, run.words_eq, run.bound, fun _ => run.finished ended, fun still => ?_⟩
  · rw [core, notWriting]
  · rw [core]
  · rw [core]
  · rw [core] at still
    exact absurd (reading.symm.trans still) (by decide)

/-- An edge of a run in progress, given what it leaves in the read FSM and outside. -/
theorem ReadRun.step_going (run : ReadRun burst mem begin finish path words)
    (noStart : (path.edge input).NoStart) (reading : path.buffer.core.status.rdReading = true)
    {after : List Word} (words_eq : after = (commandAddresses burst begin after.length).map mem)
    (bound : after.length ≤ burstCount burst begin finish)
    (atEnd : path.buffer.core.readEnd = true → after.length = burstCount burst begin finish)
    (pointer : (readFsm burst path.buffer.core (path.edge input)).rdAddrI =
      burstAddress burst begin after.length)
    (room : begin.toNat + burst * after.length < 2 ^ w)
    (stage : path.buffer.core.readEnd = false →
      ReadStage (after.length < burstCount burst begin finish)
        (readFsm burst path.buffer.core (path.edge input)) (path.clock burst input).outstanding
        (path.clock burst input).outdataFull) :
    ReadRun burst mem begin finish (path.clock burst input) after := by
  have core := run.core_step noStart
  obtain ⟨notWriting, endReg, still⟩ := run.status_step noStart
  rw [reading, Bool.true_and] at still
  rw [readProcess_of_reading reading noStart.2.2] at core
  refine ⟨?_, ?_, ?_, words_eq, bound, fun ended => ?_, fun goesOn => ⟨?_, ?_, room, ?_⟩⟩
  · rw [core, notWriting]
  · rw [core]
  · rw [core]
  · rw [core, still] at ended
    exact atEnd (by simpa using ended)
  · rw [core, endReg]
    exact (run.going reading).endReg
  · rw [core]
    exact pointer
  · rw [core, still] at goesOn
    rw [core]
    exact stage (by simpa using goesOn)

/-- The outside of the processes after an edge of a run in progress. -/
theorem ReadRun.outside_step (run : ReadRun burst mem begin finish path words)
    (running : (path.edge input).inReset = false)
    (reading : path.buffer.core.status.rdReading = true) :
    (path.clock burst input).outstanding =
        (if (path.edge input).appRdDataValid then path.outstanding.tail else path.outstanding) ++
          (if path.buffer.core.reader.rdAppEn && (path.edge input).appRdy then
            [memoryAddress path.buffer.core.reader.rdAddrI]
          else []) ∧
      (path.clock burst input).outdataFull =
        (if (path.edge input).appRdDataValid then input.fills
        else path.outdataFull && !input.drained) ∧
      path.pushed mem input =
        if (path.edge input).appRdDataValid then path.outstanding.head?.toList.map mem else [] := by
  obtain ⟨accepted, address⟩ := run.readAccepted_eq running
  have pushes : path.pushes input = (path.edge input).appRdDataValid := by
    rw [ReadPath.pushes_of_running running, reading, Bool.and_true]
    rfl
  refine ⟨?_, ?_, ?_⟩
  · rw [ReadPath.clock, accepted, address]
    rfl
  · rw [ReadPath.clock, pushes]
  · rw [ReadPath.pushed, pushes]

/-- Nothing is answered that has not been asked. -/
theorem ReadPath.valid_of_outstanding (unasked : path.outstanding = []) :
    (path.edge input).appRdDataValid = false := by
  show (input.answers && !path.outstanding.isEmpty) = false
  rw [unasked, List.isEmpty_nil, Bool.not_true, Bool.and_false]

/-- With nothing asked, a command is issued when the output FIFO has room. -/
theorem ReadRun.step_ask (positive : 0 < burst) (run : ReadRun burst mem begin finish path words)
    (noStart : (path.edge input).NoStart) (reading : path.buffer.core.status.rdReading = true)
    (state : path.buffer.core.reader.readState = .R1)
    (noCommand : path.buffer.core.reader.rdAppEn = false) (unasked : path.outstanding = []) :
    ReadRun burst mem begin finish (path.clock burst input) (words ++ path.pushed mem input) := by
  obtain ⟨_, pointer, room, _⟩ := run.going reading
  obtain ⟨outstanding, full, pushed⟩ := run.outside_step noStart.1 reading
  have readEnd := run.readEnd_eq positive reading
  rw [ReadPath.valid_of_outstanding unasked, if_neg Bool.false_ne_true] at outstanding full pushed
  rw [unasked, noCommand, Bool.false_and, if_neg Bool.false_ne_true, List.append_nil]
    at outstanding
  rw [pushed, List.append_nil]
  have next := readFsm_of_R1 burst (path.edge input) state
  refine run.step_going noStart reading run.words_eq run.bound
    (fun done => by simpa [done] using readEnd) ?_ room fun more => ?_
  · rw [next]
    cases (path.edge input).rdReadable <;> exact pointer
  · have left : words.length < burstCount burst begin finish :=
      lt_of_le_of_ne run.bound (by simpa [more] using readEnd)
    rw [next]
    cases readable : (path.edge input).rdReadable with
    | false => exact Or.inl ⟨rfl, rfl, outstanding⟩
    | true =>
      refine Or.inr (Or.inl ⟨rfl, rfl, outstanding, ?_, left⟩)
      have empty : path.outdataFull = false := by
        have ready : (input.appRdy && !path.outdataFull) = true := readable
        simpa using (Bool.and_eq_true_iff.mp ready).2
      rw [full, empty, Bool.false_and]

/-- The command stays on the bus until it is accepted, and then its answer is owed. -/
theorem ReadRun.step_issue (positive : 0 < burst)
    (run : ReadRun burst mem begin finish path words) (noStart : (path.edge input).NoStart)
    (reading : path.buffer.core.status.rdReading = true)
    (state : path.buffer.core.reader.readState = .R2)
    (command : path.buffer.core.reader.rdAppEn = true) (unasked : path.outstanding = [])
    (empty : path.outdataFull = false) (left : words.length < burstCount burst begin finish) :
    ReadRun burst mem begin finish (path.clock burst input) (words ++ path.pushed mem input) := by
  obtain ⟨_, pointer, room, _⟩ := run.going reading
  obtain ⟨outstanding, full, pushed⟩ := run.outside_step noStart.1 reading
  have readEnd := run.readEnd_eq positive reading
  rw [decide_eq_false left.ne] at readEnd
  rw [ReadPath.valid_of_outstanding unasked, if_neg Bool.false_ne_true] at outstanding full pushed
  rw [unasked, command, Bool.true_and, List.nil_append] at outstanding
  rw [empty, Bool.false_and] at full
  rw [pushed, List.append_nil]
  have next := readFsm_of_R2 burst (path.edge input) state
  refine run.step_going noStart reading run.words_eq run.bound
    (fun done => by simp [readEnd] at done) ?_ room fun _ => ?_
  · rw [next]
    cases (path.edge input).appRdy <;> exact pointer
  · rw [next]
    cases accepted : (path.edge input).appRdy with
    | false =>
      rw [accepted, if_neg Bool.false_ne_true] at outstanding
      exact Or.inr (Or.inl ⟨rfl, rfl, outstanding, full, left⟩)
    | true =>
      rw [accepted, if_pos rfl] at outstanding
      exact Or.inr (Or.inr ⟨rfl, rfl, outstanding, full, left⟩)

/-- The answer is pushed into an output FIFO that has kept its room, and the pointer moves on. -/
theorem ReadRun.step_await (positive : 0 < burst) (high : finish.toNat + burst ≤ 2 ^ w)
    (run : ReadRun burst mem begin finish path words) (noStart : (path.edge input).NoStart)
    (reading : path.buffer.core.status.rdReading = true)
    (state : path.buffer.core.reader.readState = .R3)
    (noCommand : path.buffer.core.reader.rdAppEn = false)
    (asked : path.outstanding = [memoryAddress path.buffer.core.reader.rdAddrI])
    (empty : path.outdataFull = false) (left : words.length < burstCount burst begin finish) :
    ReadRun burst mem begin finish (path.clock burst input) (words ++ path.pushed mem input) := by
  obtain ⟨_, pointer, room, _⟩ := run.going reading
  obtain ⟨outstanding, full, pushed⟩ := run.outside_step noStart.1 reading
  have readEnd := run.readEnd_eq positive reading
  rw [decide_eq_false left.ne] at readEnd
  rw [noCommand, Bool.false_and, if_neg Bool.false_ne_true, List.append_nil, asked]
    at outstanding
  rw [asked] at pushed
  have next := readFsm_of_R3 burst (path.edge input) state
  cases valid : (path.edge input).appRdDataValid with
  | false =>
    rw [valid, if_neg Bool.false_ne_true] at outstanding full pushed next
    rw [empty, Bool.false_and] at full
    rw [pushed, List.append_nil]
    refine run.step_going noStart reading run.words_eq run.bound
      (fun done => by simp [readEnd] at done) (by rw [next, pointer]) room fun _ => ?_
    rw [next]
    exact Or.inr (Or.inr ⟨rfl, rfl, outstanding, full, left⟩)
  | true =>
    rw [valid, if_pos rfl] at outstanding pushed next
    have pushed : path.pushed mem input =
        [mem (memoryAddress (burstAddress burst begin words.length))] := by
      rw [pushed, ← pointer]
      rfl
    have inside := (lt_burstCount positive begin finish words.length).mp left
    have length : (words ++ path.pushed mem input).length = words.length + 1 := by
      rw [pushed, List.length_append, List.length_singleton]
    refine run.step_going noStart reading ?_ (length.trans_le left)
      (fun done => by simp [readEnd] at done) ?_ ?_ fun _ => ?_
    · rw [length, commandAddresses_succ, List.map_append, ← run.words_eq, pushed,
        List.map_singleton]
    · rw [length, next, pointer, advance_burstAddress]
    · rw [length, Nat.mul_succ]
      omega
    · rw [next]
      exact Or.inl ⟨rfl, rfl, outstanding⟩

/-- An edge without a start keeps the invariant, and pushes only into a FIFO with room. -/
theorem ReadRun.step (positive : 0 < burst) (high : finish.toNat + burst ≤ 2 ^ w)
    (run : ReadRun burst mem begin finish path words) (noStart : (path.edge input).NoStart) :
    ReadRun burst mem begin finish (path.clock burst input) (words ++ path.pushed mem input) := by
  cases reading : path.buffer.core.status.rdReading with
  | false => exact run.step_finished noStart reading
  | true =>
    rcases (run.going reading).stage with ⟨state, noCommand, unasked⟩ |
      ⟨state, command, unasked, empty, left⟩ | ⟨state, noCommand, asked, empty, left⟩
    · exact run.step_ask positive noStart reading state noCommand unasked
    · exact run.step_issue positive noStart reading state command unasked empty left
    · exact run.step_await positive high noStart reading state noCommand asked empty left

/-- A word is pushed only while the full flag is low. -/
theorem ReadRun.room_of_pushes (run : ReadRun burst mem begin finish path words)
    (running : (path.edge input).inReset = false) (pushes : path.pushes input = true) :
    path.outdataFull = false := by
  rw [ReadPath.pushes_of_running running, Bool.and_eq_true] at pushes
  obtain ⟨valid, reading⟩ := pushes
  have unasked : path.outstanding ≠ [] := fun answered => by
    have quiet : (path.ports input).appRdDataValid = false := ReadPath.valid_of_outstanding answered
    simp [quiet] at valid
  rcases (run.going reading).stage with ⟨_, _, answered⟩ | ⟨_, _, answered, _⟩ | ⟨_, _, _, empty, _⟩
  · exact absurd answered unasked
  · exact absurd answered unasked
  · exact empty

end Step

section Law

variable {begin finish : BitVec w} {path : ReadPath w} {start : Edge w}

/-- An idle buffer that owes nothing. -/
structure ReadPath.Idle (path : ReadPath w) : Prop where
  core : path.buffer.core.Idle
  unasked : path.outstanding = []

theorem ReadPath.Idle.pushes (idle : path.Idle) (input : ReadPorts w) :
    path.pushes input = false := by
  simp [ReadPath.pushes, Core.outdataFifoWren, ReadPath.ports, idle.unasked]

theorem ReadPath.Idle.unasked_clock (burst : Nat) (idle : path.Idle) {input : ReadPorts w}
    (running : (path.edge input).inReset = false) : (path.clock burst input).outstanding = [] := by
  have ports : (path.ports input).inReset = false := running
  simp [ReadPath.clock, idle.unasked, ReadPath.settled, Core.settle_of_running ports,
    Core.readAccepted, Core.commandAccepted, Core.appEn, idle.core.noWrite, idle.core.noRead]

theorem ReadPath.Idle.clock (burst : Nat) (idle : path.Idle) {input : ReadPorts w}
    (noStart : (path.edge input).NoStart) : (path.clock burst input).Idle :=
  ⟨idle.core.clock burst noStart, idle.unasked_clock burst noStart.1⟩

/-- The read start takes an idle buffer into its run. -/
theorem ReadRun.ofStart (burst : Nat) (mem : BitVec w → Word) (idle : path.Idle)
    {input : ReadPorts w} (starts : (path.edge input).StartsReading) :
    ReadRun burst mem (path.edge input).rdAddrBegin (path.edge input).rdAddrEnd
      (path.clock burst input) [] := by
  have unasked := idle.unasked_clock burst starts.1
  obtain ⟨running, noWrite, start⟩ := starts
  have core := ReadPath.core_clock burst path input
  rw [Core.clock_of_running running, writeProcess_of_noStart noWrite, idle.core.writeFsm_eq,
    readProcess_of_start start, idle.core.notReading, Bool.false_and] at core
  have reading : (path.clock burst input).buffer.core.status.rdReading = true := by
    simp [core, statusProcess_eq, start]
  refine ⟨?_, ?_, ?_, rfl, Nat.zero_le _, fun ended => ?_, fun _ => ⟨?_, ?_, ?_, ?_⟩⟩
  · simp [core, statusProcess_eq, start]
  · rw [core]
  · rw [core]
  · exact absurd (reading.symm.trans ended) (by decide)
  · simp [core, statusProcess_eq, start]
  · rw [core]
    exact (burstAddress_zero _).symm
  · exact (path.edge input).rdAddrBegin.isLt
  · exact Or.inl ⟨by rw [core], by rw [core], unasked⟩

end Law

/-! ### The law of a read run -/

/-- What has been pushed by the end of a run with one read start, at `start`. -/
structure ReadComplete (burst : Nat) (mem : BitVec w → Word) (path : ReadPath w)
    (inputs : List (ReadPorts w)) (start : Edge w) : Prop where
  /-- The words pushed are the memory words of the range, in order, and no others. -/
  inOrder : path.words burst mem inputs <+: readWords burst mem start.rdAddrBegin start.rdAddrEnd
  /-- None is pushed while the output FIFO is full. -/
  withRoom : ∀ seen input later, inputs = seen ++ input :: later →
    (path.run burst seen).pushes input = true → (path.run burst seen).outdataFull = false
  /-- `RD_BUSY` falls only once all of them have been pushed. -/
  complete : (path.run burst inputs).buffer.core.rdBusy = false →
    path.words burst mem inputs = readWords burst mem start.rdAddrBegin start.rdAddrEnd

section Law

variable {begin finish : BitVec w} {path : ReadPath w} {start : Edge w}

/-- Until a start reaches it, an idle path stays idle and pushes nothing. -/
theorem ReadPath.Idle.run (burst : Nat) (mem : BitVec w → Word) (idle : path.Idle)
    {inputs : List (ReadPorts w)} (noStart : ∀ edge ∈ path.edges burst inputs, edge.NoStart) :
    (path.run burst inputs).Idle ∧ path.words burst mem inputs = [] ∧
      Clocked.Along (ReadPath.clock burst)
        (fun path input => path.pushes input = true → path.outdataFull = false) path inputs := by
  have along := (Clocked.along_drive _ path inputs).mpr noStart
  refine ⟨Clocked.run_invariant ReadPath.Idle (fun path input idle noStart =>
    idle.clock burst noStart) idle along, ?_, ?_⟩
  · have silent : (path.run burst inputs).Idle ∧ [] ++ path.words burst mem inputs = [] :=
      Clocked.log_invariant (fun path words => path.Idle ∧ words = [])
        (fun path input words idle noStart => ⟨idle.1.clock burst noStart, by
          rw [idle.2, ReadPath.pushed, idle.1.pushes, if_neg Bool.false_ne_true, List.nil_append]⟩)
        ⟨idle, rfl⟩ along
    exact silent.2
  · exact Clocked.along_of_invariant ReadPath.Idle (fun path input idle noStart =>
      idle.clock burst noStart) (fun path input idle _ pushes => by simp [idle.pushes] at pushes)
      idle along

theorem ReadRun.run (positive : 0 < burst) (high : finish.toNat + burst ≤ 2 ^ w)
    (run : ReadRun burst mem begin finish path []) {inputs : List (ReadPorts w)}
    (noStart : ∀ edge ∈ path.edges burst inputs, edge.NoStart) :
    ReadRun burst mem begin finish (path.run burst inputs) (path.words burst mem inputs) ∧
      Clocked.Along (ReadPath.clock burst)
        (fun path input => path.pushes input = true → path.outdataFull = false) path inputs := by
  have along := (Clocked.along_drive _ path inputs).mpr noStart
  refine ⟨Clocked.log_invariant (ReadRun burst mem begin finish)
    (fun path input words run noStart => run.step positive high noStart) run along, ?_⟩
  exact Clocked.along_of_invariant (fun path => ∃ words, ReadRun burst mem begin finish path words)
    (fun path input ⟨words, run⟩ noStart => ⟨_, run.step positive high noStart⟩)
    (fun path input ⟨words, run⟩ noStart => run.room_of_pushes noStart.1) ⟨[], run⟩ along

/-- The law of a read run: an idle buffer, one start, and then any schedule of the memory
controller and of the output FIFO. -/
theorem read_completeness (mem : BitVec w → Word) (positive : 0 < burst) (path : ReadPath w)
    (idle : path.Idle) (inputs : List (ReadPorts w)) (start : Edge w)
    (one : OneReadStart (path.edges burst inputs) start)
    (high : start.rdAddrEnd.toNat + burst ≤ 2 ^ w) :
    ReadComplete burst mem path inputs start := by
  obtain ⟨before, after, split, noStartBefore, starts, noStartAfter⟩ := one
  obtain ⟨first, input, last, rfl, fed, driven, rest⟩ := Clocked.feed_eq_append_cons split
  have driven : (path.run burst first).edge input = start := driven
  have rest : ((path.run burst first).clock burst input).edges burst last = after := rest
  subst driven rest
  obtain ⟨idle, silent, roomBefore⟩ := idle.run burst mem (by rwa [ReadPath.edges, fed])
  obtain ⟨run, roomAfter⟩ :=
    (ReadRun.ofStart burst mem idle starts).run positive high noStartAfter
  have words : path.words burst mem (first ++ input :: last) =
      ((path.run burst first).clock burst input).words burst mem last := by
    have atStart : ReadPath.pushed mem (path.run burst first) input = [] := by
      rw [ReadPath.pushed, idle.pushes, if_neg Bool.false_ne_true]
    rw [ReadPath.words] at silent
    rw [ReadPath.words, Clocked.log_append, silent, List.nil_append, Clocked.log_cons]
    exact congrArg (· ++ _) atStart
  have ran : path.run burst (first ++ input :: last) =
      ((path.run burst first).clock burst input).run burst last := Clocked.run_append _ _ _ _
  refine ⟨?_, ?_, fun ended => ?_⟩
  · rw [words, readWords_eq, run.words_eq]
    exact (commandAddresses_beginning _ run.bound).map mem
  · have atStart : (path.run burst first).pushes input = true →
        (path.run burst first).outdataFull = false := fun pushes =>
      absurd ((idle.pushes input).symm.trans pushes) (by decide)
    exact Clocked.along_iff_steps.mp
      ((Clocked.along_append _ _ path first (input :: last)).mpr ⟨roomBefore, atStart, roomAfter⟩)
  · rw [ran] at ended
    rw [words, readWords_eq, ← run.finished ended]
    exact run.words_eq

end Law

/-- A read start for the range from 2 to 5 with a ready memory controller that answers at once;
every push fills the output FIFO, and the reading side makes room in the next clock. -/
def ReadPath.startAndRead (clocks : Nat) : List (ReadPorts 4) :=
  ⟨{ Ports.low with rdStart := true }, false, false, false⟩ ::
    List.replicate clocks
      ⟨{ Ports.low with appRdy := true, rdAddrBegin := 2, rdAddrEnd := 5 }, true, true, true⟩

/-- The edge at which that start reaches the processes. -/
def ReadPath.startEdge : Edge 4 :=
  { (Ports.low : Ports 4) with
    appRdy := true, rdAddrBegin := 2, rdAddrEnd := 5, indataFifoEmpty := true
    wrStartPulse := false, wrStopPulse := false, rdStartPulse := true }

/-- With bursts of two the range takes two words, and the third command pushes none. -/
theorem read_completeness_two_words :
    (⟨Buffer.powerOn, [], false⟩ : ReadPath 4).words 2 BitVec.toNat (ReadPath.startAndRead 16) =
        [2, 4] ∧
      ReadComplete 2 BitVec.toNat ⟨Buffer.powerOn, [], false⟩ (ReadPath.startAndRead 16)
        ReadPath.startEdge :=
  ⟨by decide,
    read_completeness BitVec.toNat (by decide) ⟨Buffer.powerOn, [], false⟩
      ⟨Core.idle_powerOn, rfl⟩ (ReadPath.startAndRead 16) ReadPath.startEdge
      ⟨(ReadPath.edges 2 ⟨Buffer.powerOn, [], false⟩ (ReadPath.startAndRead 16)).take 4,
        (ReadPath.edges 2 ⟨Buffer.powerOn, [], false⟩ (ReadPath.startAndRead 16)).drop 5,
        by decide, by decide, by decide, by decide⟩
      (by decide)⟩

end K71GbE.Sdram
