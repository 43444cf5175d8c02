/-
This file joins `control_interface` and `sdram_buffer_fifo` by the start and stop
bits of `PULSE_REG`, and counts the pulse writes and the pulses they become.

The clock of the memory runs at twice the control clock, so each of the three
clocks of a pulse is two samples of a converter's input. A converter ignores its
input for fourteen edges after it took a request, and its busy output is open. No
external trigger shares `WR_START`, and `RESET` stays low.
-/

import K71GbE.Clocked.Progress
import K71GbE.Control.Pulses
import K71GbE.Sdram.Buffer

namespace K71GbE

open Clocked

/-! ### A converter at half its clock -/

namespace Pulse2pulse

/-- Two edges at one level of the input. -/
def twice (level : Bool) (pulse : Pulse2pulse) : Pulse2pulse :=
  (pulse.clock true true false level).clock true true false level

/-- The pulses seen at these two edges. -/
def delivers (level : Bool) (pulse : Pulse2pulse) : Nat :=
  pulse.outProc.pulseout.toNat + (pulse.clock true true false level).outProc.pulseout.toNat

/-- The converter took its last request at least seven edges ago. -/
def Ready (pulse : Pulse2pulse) : Prop := ∀ k < 7, pulse ≠ request k

instance (pulse : Pulse2pulse) : Decidable pulse.Ready :=
  inferInstanceAs (Decidable (∀ k < 7, pulse ≠ request k))

/-- The pulse that a converter still owes for a request it took. -/
def due (k : Nat) : Nat := if k ≤ 3 then 1 else 0

/-- A converter that will turn a level of `left` more double edges into `pending` pulses. -/
inductive Tracks : Bool → Nat → Pulse2pulse → Nat → Prop
  | idle (left : Nat) : Tracks false left reset 0
  | low (left k : Nat) (inside : k < 15) : Tracks false left (request k) (due k)
  | fresh : Tracks true 3 reset 1
  | waiting (left k : Nat) (inside : k < 15) (small : left ≤ 3) (reaches : 15 ≤ k + 2 * left) :
      Tracks true left (request k) 1
  | taken (left k : Nat) (positive : 1 ≤ left) (small : left ≤ 3) (young : k < 2 * (3 - left)) :
      Tracks true left (request k) (due k)

/-- A converter that is past its pulse and will ignore the level as long as it lasts. -/
inductive Lost : Bool → Nat → Pulse2pulse → Prop
  | idle (left : Nat) : Lost false left reset
  | low (left k : Nat) (old : 4 ≤ k) (inside : k < 15) : Lost false left (request k)
  | high (left k : Nat) (positive : 1 ≤ left) (old : 4 ≤ k) (ends : k + 2 * left < 15) :
    Lost true left (request k)

/-- A level that is ignored. -/
theorem twice_request {k : Nat} (busy : k < 13) (level : Bool) :
    twice level (request k) = request (k + 2) := by
  rw [twice, request_clock (by omega), request_clock (by omega)]

/-- At the end of the handshake a low level leads back to rest. -/
theorem twice_false_request {k : Nat} (old : 13 ≤ k) (inside : k < 15) :
    twice false (request k) = reset := by
  revert k
  decide

/-- A high level is taken there, at the second edge or at the first. -/
theorem twice_true_request {k : Nat} (old : 13 ≤ k) (inside : k < 15) :
    twice true (request k) = request (k - 13) := by
  revert k
  decide

/-- The pulse is seen once, three edges after its request. -/
theorem delivers_request {k : Nat} (inside : k < 15) (level : Bool) :
    delivers level (request k) = due k - due (k + 2) := by
  revert k level
  decide

theorem reset_ne_request {j : Nat} (young : j < 7) : reset ≠ request j := by
  revert j
  decide

theorem request_injective {j k : Nat} (inside : k < 15) (young : j < 7)
    (same : request k = request j) : k = j := by
  have all : ∀ k < 15, ∀ j < 7, request k = request j → k = j := by decide
  exact all k inside j young same

theorem due_of_lt {k : Nat} (old : 3 < k) : due k = 0 := if_neg (Nat.not_le.mpr old)

theorem due_add_two_le (k : Nat) : due (k + 2) ≤ due k := by
  unfold due
  split_ifs <;> omega

section Steps

variable {left pending : Nat} {pulse : Pulse2pulse}

/-- Two edges of a low level. -/
theorem Tracks.low_step (tracks : Tracks false left pulse pending) (next : Nat) :
    delivers false pulse ≤ pending ∧
      Tracks false next (twice false pulse) (pending - delivers false pulse) := by
  cases tracks with
  | idle _ => exact ⟨le_rfl, .idle next⟩
  | low _ k inside =>
    have less := due_add_two_le k
    rw [delivers_request inside, Nat.sub_sub_self less]
    refine ⟨Nat.sub_le _ _, ?_⟩
    by_cases busy : k < 13
    · rw [twice_request busy]
      exact .low next (k + 2) (by omega)
    · rw [twice_false_request (Nat.le_of_not_lt busy) inside, due_of_lt (by omega)]
      exact .idle next

/-- Two edges of a high level. -/
theorem Tracks.high_step (tracks : Tracks true left pulse pending) :
    delivers true pulse ≤ pending ∧
      Tracks (decide (1 < left)) (left - 1) (twice true pulse) (pending - delivers true pulse) := by
  cases tracks with
  | fresh => exact ⟨by decide, .taken 2 1 (by decide) (by decide) (by decide)⟩
  | waiting _ k inside small reaches =>
    rw [delivers_request inside, due_of_lt (k := k) (by omega), Nat.zero_sub, Nat.sub_zero]
    refine ⟨Nat.zero_le _, ?_⟩
    by_cases busy : k < 13
    · rw [twice_request busy, decide_eq_true (show 1 < left by omega)]
      exact .waiting (left - 1) (k + 2) (by omega) (by omega) (by omega)
    · have owed : due (k - 13) = 1 := if_pos (by omega)
      rw [twice_true_request (Nat.le_of_not_lt busy) inside]
      by_cases more : 1 < left
      · have taken := Tracks.taken (left - 1) (k - 13) (by omega) (by omega) (by omega)
        rwa [owed, ← decide_eq_true more] at taken
      · have low := Tracks.low (left - 1) (k - 13) (by omega)
        rwa [owed, ← decide_eq_false more] at low
  | taken _ k positive small young =>
    have less := due_add_two_le k
    rw [delivers_request (by omega), Nat.sub_sub_self less, twice_request (by omega)]
    refine ⟨Nat.sub_le _ _, ?_⟩
    by_cases more : 1 < left
    · rw [decide_eq_true more]
      exact .taken (left - 1) (k + 2) (by omega) (by omega) (by omega)
    · rw [decide_eq_false more]
      exact .low (left - 1) (k + 2) (by omega)

/-- Two edges of any level. -/
theorem Tracks.step {level : Bool} (tracks : Tracks level left pulse pending) :
    delivers level pulse ≤ pending ∧
      Tracks (level && decide (1 < left)) (left - 1) (twice level pulse)
        (pending - delivers level pulse) := by
  cases level with
  | false => exact tracks.low_step (left - 1)
  | true => exact tracks.high_step

/-- A converter that is ready will take a level of six edges that comes next. -/
theorem Tracks.start (tracks : Tracks false left pulse pending) (ready : pulse.Ready) :
    pending = 0 ∧ delivers false pulse = 0 ∧ Tracks true 3 (twice false pulse) 1 := by
  cases tracks with
  | idle _ => exact ⟨rfl, by decide, .fresh⟩
  | low _ k inside =>
    have old : 7 ≤ k := Nat.le_of_not_lt fun young => ready k young rfl
    rw [delivers_request inside, due_of_lt (by omega), Nat.zero_sub]
    refine ⟨rfl, rfl, ?_⟩
    by_cases busy : k < 13
    · rw [twice_request busy]
      exact .waiting 3 (k + 2) (by omega) le_rfl (by omega)
    · rw [twice_false_request (Nat.le_of_not_lt busy) inside]
      exact .fresh

/-- A converter that is not ready, and owes no pulse, ignores it. -/
theorem Tracks.lose (tracks : Tracks false left pulse pending) (busy : ¬pulse.Ready)
    (noneDue : pending = 0) : delivers false pulse = 0 ∧ Lost true 3 (twice false pulse) := by
  obtain ⟨j, young, same⟩ : ∃ j < 7, pulse = request j := by
    simpa [Ready] using busy
  cases tracks with
  | idle _ => exact absurd same (reset_ne_request young)
  | low _ k inside =>
    have old : 3 < k := Nat.lt_of_not_le fun early => by simp [due, early] at noneDue
    rw [← request_injective inside young same] at young
    rw [delivers_request inside, due_of_lt old, Nat.zero_sub, twice_request (by omega)]
    exact ⟨rfl, .high 3 (k + 2) (by decide) (by omega) (by omega)⟩

/-- A request that is lost stays lost. -/
theorem Lost.step {level : Bool} (lost : Lost level left pulse) :
    delivers level pulse = 0 ∧
      Lost (level && decide (1 < left)) (left - 1) (twice level pulse) := by
  cases lost with
  | idle _ => exact ⟨rfl, .idle _⟩
  | low _ k old inside =>
    rw [delivers_request inside, due_of_lt old, Nat.zero_sub]
    refine ⟨rfl, ?_⟩
    by_cases busy : k < 13
    · rw [twice_request busy]
      exact .low _ (k + 2) (by omega) (by omega)
    · rw [twice_false_request (Nat.le_of_not_lt busy) inside]
      exact .idle _
  | high _ k positive old ends =>
    rw [delivers_request (by omega), due_of_lt old, Nat.zero_sub, twice_request (by omega)]
    refine ⟨rfl, ?_⟩
    by_cases more : 1 < left
    · rw [decide_eq_true more]
      exact .high (left - 1) (k + 2) (by omega) (by omega) (by omega)
    · rw [decide_eq_false more]
      exact .low (left - 1) (k + 2) (by omega) (by omega)

/-- How often a low level is left does not matter. -/
theorem Tracks.relax (tracks : Tracks false left pulse pending) (next : Nat) :
    Tracks false next pulse pending := by
  cases tracks with
  | idle _ => exact .idle next
  | low _ k inside => exact .low next k inside

theorem Lost.relax (lost : Lost false left pulse) (next : Nat) : Lost false next pulse := by
  cases lost with
  | idle _ => exact .idle next
  | low _ k old inside => exact .low next k old inside

/-- A high level lasts at most three double edges. -/
theorem Tracks.left_le {level : Bool} (tracks : Tracks level left pulse pending)
    (high : level = true) : left ≤ 3 := by
  cases tracks with
  | idle _ | low _ _ _ => cases high
  | fresh => exact le_rfl
  | waiting _ _ _ small _ | taken _ _ _ small _ => exact small

/-- Behind the level two double edges suffice for the pulse. -/
theorem Tracks.settles (tracks : Tracks false left pulse pending) :
    pending ≤ delivers false pulse + delivers false (twice false pulse) := by
  cases tracks with
  | idle _ => exact Nat.zero_le _
  | low _ k inside =>
    rw [delivers_request inside]
    by_cases busy : k < 13
    · rw [twice_request busy, delivers_request (by omega), due_of_lt (k := k + 2 + 2) (by omega)]
      have less := due_add_two_le k
      omega
    · rw [due_of_lt (k := k) (by omega)]
      exact Nat.zero_le _

end Steps

end Pulse2pulse

/-! ### The two designs -/

/-- The start and stop inputs of `sdram_buffer_fifo`. -/
inductive Start where
  | wrStart | wrStop | rdStart
deriving DecidableEq, Repr

namespace Start

variable {w : Nat}

/-- The bit of `PULSE_REG`. -/
def bit : Start → Nat
  | wrStart => 3
  | wrStop => 4
  | rdStart => 5

/-- The converter behind the input. -/
def converter (start : Start) (buffer : Sdram.Buffer w) : Pulse2pulse :=
  match start with
  | wrStart => buffer.wrStartConverter
  | wrStop => buffer.wrStopConverter
  | rdStart => buffer.rdStartConverter

/-- `wr_start_pulse`, `wr_stop_pulse` and `rd_start_pulse`. -/
def pulse (start : Start) (edge : Sdram.Edge w) : Bool :=
  match start with
  | wrStart => edge.wrStartPulse
  | wrStop => edge.wrStopPulse
  | rdStart => edge.rdStartPulse

end Start

/-- The levels at the other inputs during one control clock: those of `control_interface`, and
those of `sdram_buffer_fifo` at its two edges. -/
structure Levels (w : Nat) where
  control : Control.Ports
  first : Sdram.Ports w
  second : Sdram.Ports w

/-- `control_interface` and `sdram_buffer_fifo`. -/
structure Board (w : Nat) where
  control : Control.ControlInterface
  buffer : Sdram.Buffer w

namespace Board

variable {w : Nat}

def powerOn : Board w := ⟨.powerOn, .powerOn⟩

/-- The inputs of `control_interface`. -/
def controlPorts (levels : Levels w) : Control.Ports := { levels.control with reset := false }

/-- The inputs of `sdram_buffer_fifo`, four of them bits of `PULSE_REG`. -/
def sdramPorts (board : Board w) (ports : Sdram.Ports w) : Sdram.Ports w :=
  { ports with
    reset := false
    ctrlReset := board.control.sPulseReg.getLsbD 6
    wrStart := board.control.sPulseReg.getLsbD 3
    wrStop := board.control.sPulseReg.getLsbD 4
    rdStart := board.control.sPulseReg.getLsbD 5 }

/-- `sdram_buffer_fifo` after the first of its two edges. -/
def between (burst : Nat) (board : Board w) (levels : Levels w) : Sdram.Buffer w :=
  board.buffer.clock burst (board.sdramPorts levels.first)

/-- One control clock. -/
def clock (burst : Nat) (board : Board w) (levels : Levels w) : Board w where
  control := board.control.clock (controlPorts levels)
  buffer := (board.between burst levels).clock burst (board.sdramPorts levels.second)

/-- The command interpreted at this edge writes the bit to the pulse register. -/
def writes (start : Start) (board : Board w) (levels : Levels w) : Bool :=
  match board.control.pulseWrite (controlPorts levels) with
  | some mask => mask.getLsbD start.bit
  | none => false

/-- The clocks of the memory at which the converted pulse is high, in one control clock. -/
def pulses (start : Start) (burst : Nat) (board : Board w) (levels : Levels w) : Nat :=
  (start.pulse (board.buffer.edge (board.sdramPorts levels.first))).toNat +
    (start.pulse ((board.between burst levels).edge (board.sdramPorts levels.second))).toNat

/-- The board before control clock `n`. -/
def before (burst : Nat) (levels : Nat → Levels w) (n : Nat) : Board w :=
  run (clock burst) powerOn (upTo levels n)

/-- The writes of the bit before control clock `n`. -/
def written (start : Start) (burst : Nat) (levels : Nat → Levels w) : Nat → Nat
  | 0 => 0
  | n + 1 =>
    written start burst levels n + ((before burst levels n).writes start (levels n)).toNat

/-- The pulses before control clock `n`. -/
def delivered (start : Start) (burst : Nat) (levels : Nat → Levels w) : Nat → Nat
  | 0 => 0
  | n + 1 => delivered start burst levels n + (before burst levels n).pulses start burst (levels n)

/-- Every write of the bit becomes one pulse of one clock: none comes without a write, at every
write those of the earlier ones have come, and at last that of the last one. -/
structure ExactlyOnce (start : Start) (burst : Nat) (levels : Nat → Levels w) : Prop where
  atMost : ∀ n, delivered start burst levels n ≤ written start burst levels n
  inTime : ∀ n, (before burst levels n).writes start (levels n) = true →
    delivered start burst levels n = written start burst levels n
  atLast : ∀ n, ∃ m, written start burst levels n ≤ delivered start burst levels m

/-! ### Every write becomes one pulse -/

section Runs

variable (start : Start) (burst : Nat) {levels : Nat → Levels w} {n : Nat}

/-- The level at the input of the converter. -/
def level (board : Board w) : Bool := board.control.sPulseReg.getLsbD start.bit

theorem converter_clock (board : Board w) (levels : Levels w) :
    start.converter (board.clock burst levels).buffer =
      (start.converter board.buffer).twice (board.level start) := by
  cases start <;> rfl

theorem pulses_eq (board : Board w) (levels : Levels w) :
    board.pulses start burst levels =
      (start.converter board.buffer).delivers (board.level start) := by
  cases start <;> rfl

theorem before_succ (levels : Nat → Levels w) (n : Nat) :
    before burst levels (n + 1) = (before burst levels n).clock burst (levels n) := by
  rw [before, upTo_succ, run_concat, before]

variable {start} {board : Board w} (pulsing : board.control.Pulsing) {now : Levels w}

include pulsing

/-- A write finds the level low, and raises it for three clocks. -/
theorem level_of_writes (write : board.writes start now = true) :
    board.level start = false ∧ (board.clock burst now).level start = true ∧
      (board.clock burst now).control.left = 3 := by
  obtain ⟨clear, high, left⟩ := pulsing.bit_of_write (controlPorts now) rfl write
  refine ⟨?_, high, left⟩
  rw [Board.level, clear]
  exact BitVec.getLsbD_zero

/-- Otherwise the level runs down. -/
theorem level_of_not_writes (quiet : board.writes start now = false) :
    (board.clock burst now).level start =
        (board.level start && decide (1 < board.control.left)) ∧
      ((board.clock burst now).level start = true →
        (board.clock burst now).control.left = board.control.left - 1) :=
  pulsing.bit_of_not_write (controlPorts now) rfl quiet

end Runs

section Counts

open Pulse2pulse

variable {start : Start} {burst : Nat} {levels : Nat → Levels w} {n : Nat}

theorem pulsing_before (burst : Nat) (levels : Nat → Levels w) (n : Nat) :
    (before burst levels n).control.Pulsing := by
  induction n with
  | zero => exact .powerOn
  | succ n inductionHypothesis =>
    rw [before_succ]
    exact (inductionHypothesis.clock _ rfl).pulsing

theorem delivered_mono (start : Start) (burst : Nat) (levels : Nat → Levels w) :
    Monotone (delivered start burst levels) :=
  monotone_nat_of_le_succ fun _ => Nat.le_add_right _ _

theorem written_mono (start : Start) (burst : Nat) (levels : Nat → Levels w) :
    Monotone (written start burst levels) :=
  monotone_nat_of_le_succ fun _ => Nat.le_add_right _ _

/-- As long as the converter was ready at every write, what is written and not yet delivered is what
the converter will deliver. -/
structure Counted (start : Start) (burst : Nat) (levels : Nat → Levels w) (n : Nat) : Prop where
  atMost : delivered start burst levels n ≤ written start burst levels n
  tracks : Tracks ((before burst levels n).level start) (before burst levels n).control.left
    (start.converter (before burst levels n).buffer)
    (written start burst levels n - delivered start burst levels n)

theorem counted_zero : Counted start burst levels 0 := by
  have low : (before burst levels 0).level start = false := BitVec.getLsbD_zero
  have rest : start.converter (before burst levels 0).buffer = reset := by cases start <;> rfl
  refine ⟨le_rfl, ?_⟩
  rw [low, rest]
  exact .idle _

/-- Without a write. -/
theorem Counted.quiet (counted : Counted start burst levels n)
    (quiet : (before burst levels n).writes start (levels n) = false) :
    Counted start burst levels (n + 1) := by
  obtain ⟨next, left⟩ := level_of_not_writes burst (pulsing_before burst levels n) quiet
  obtain ⟨less, tracks⟩ := counted.tracks.step
  have same : written start burst levels (n + 1) = written start burst levels n := by
    rw [written, quiet, Bool.toNat_false, Nat.add_zero]
  have more : delivered start burst levels (n + 1) = delivered start burst levels n +
      (start.converter (before burst levels n).buffer).delivers
        ((before burst levels n).level start) := by
    rw [delivered, pulses_eq]
  have atMost := counted.atMost
  refine ⟨by omega, ?_⟩
  rw [same, more, ← Nat.sub_sub, before_succ, converter_clock, next]
  rw [← next] at tracks ⊢
  cases high : ((before burst levels n).clock burst (levels n)).level start with
  | true =>
    rw [left high]
    rwa [high] at tracks
  | false =>
    rw [high] at tracks
    exact tracks.relax _

/-- With a write that finds the converter ready. -/
theorem Counted.write (counted : Counted start burst levels n)
    (write : (before burst levels n).writes start (levels n) = true)
    (ready : (start.converter (before burst levels n).buffer).Ready) :
    Counted start burst levels (n + 1) ∧
      delivered start burst levels n = written start burst levels n := by
  obtain ⟨low, high, left⟩ := level_of_writes burst (pulsing_before burst levels n) write
  have tracks := counted.tracks
  rw [low] at tracks
  obtain ⟨settled, noPulse, next⟩ := tracks.start ready
  have same : delivered start burst levels n = written start burst levels n :=
    Nat.le_antisymm counted.atMost (Nat.le_of_sub_eq_zero settled)
  have count : written start burst levels (n + 1) = written start burst levels n + 1 := by
    rw [written, write, Bool.toNat_true]
  have kept : delivered start burst levels (n + 1) = delivered start burst levels n := by
    rw [delivered, pulses_eq, low, noPulse, Nat.add_zero]
  refine ⟨⟨by omega, ?_⟩, same⟩
  rw [count, kept, same, Nat.add_sub_cancel_left, before_succ, converter_clock, low, high, left]
  exact next

/-- Writes that all find the converter ready are counted. -/
theorem counted_of_ready
    (ready : ∀ m < n, (before burst levels m).writes start (levels m) = true →
      (start.converter (before burst levels m).buffer).Ready) :
    Counted start burst levels n := by
  induction n with
  | zero => exact counted_zero
  | succ n inductionHypothesis =>
    have counted := inductionHypothesis fun m earlier => ready m (Nat.lt_succ_of_lt earlier)
    cases write : (before burst levels n).writes start (levels n) with
    | true => exact (counted.write write (ready n (Nat.lt_succ_self n) write)).1
    | false => exact counted.quiet write

/-- A write that finds the converter busy is never delivered. -/
theorem not_exactlyOnce_of_busy (counted : Counted start burst levels n)
    (write : (before burst levels n).writes start (levels n) = true)
    (busy : ¬(start.converter (before burst levels n).buffer).Ready) :
    ¬ExactlyOnce start burst levels := by
  intro once
  obtain ⟨low, high, left⟩ := level_of_writes burst (pulsing_before burst levels n) write
  have tracks := counted.tracks
  have same := once.inTime n write
  rw [low] at tracks
  obtain ⟨noPulse, lost⟩ := tracks.lose busy (by rw [same, Nat.sub_self])
  -- with nothing on the way no later write is in time, so none comes, and the pulse does not either
  have never (j : Nat) :
      Lost ((before burst levels (n + 1 + j)).level start)
          (before burst levels (n + 1 + j)).control.left
          (start.converter (before burst levels (n + 1 + j)).buffer) ∧
        delivered start burst levels (n + 1 + j) = delivered start burst levels n ∧
        written start burst levels (n + 1 + j) = written start burst levels n + 1 := by
    induction j with
    | zero =>
      refine ⟨?_, ?_, ?_⟩
      · rw [Nat.add_zero, before_succ, converter_clock, low, high, left]
        exact lost
      · rw [Nat.add_zero, delivered, pulses_eq, low, noPulse, Nat.add_zero]
      · rw [Nat.add_zero, written, write, Bool.toNat_true]
    | succ j inductionHypothesis =>
      obtain ⟨lost, kept, count⟩ := inductionHypothesis
      have quiet : (before burst levels (n + 1 + j)).writes start (levels (n + 1 + j)) = false := by
        refine Bool.eq_false_iff.mpr fun again => ?_
        have inTime := once.inTime _ again
        omega
      obtain ⟨next, left⟩ := level_of_not_writes burst (pulsing_before burst levels _) quiet
      obtain ⟨noPulse, lost⟩ := lost.step
      refine ⟨?_, ?_, ?_⟩
      · rw [← Nat.add_assoc, before_succ, converter_clock]
        rw [← next] at lost
        cases high : ((before burst levels (n + 1 + j)).clock burst (levels (n + 1 + j))).level
            start with
        | true =>
          rw [left high]
          rwa [high] at lost
        | false =>
          rw [high] at lost
          exact lost.relax _
      · rw [← Nat.add_assoc, delivered, pulses_eq, noPulse, Nat.add_zero, kept]
      · rw [← Nat.add_assoc, written, quiet, Bool.toNat_false, Nat.add_zero, count]
  obtain ⟨m, all⟩ := once.atLast (n + 1)
  have later := delivered_mono start burst levels (Nat.le_add_left m (n + 1))
  have first := (never 0).2.2
  have last := (never m).2.1
  rw [Nat.add_zero] at first
  omega

/-- After the last write the level falls within three clocks. -/
theorem level_falls (counted : Counted start burst levels n)
    (quiet : ∀ m, n ≤ m → (before burst levels m).writes start (levels m) = false) :
    (before burst levels (n + 3)).level start = false := by
  have step (m : Nat) (after : n ≤ m) (high : (before burst levels (m + 1)).level start = true) :
      (before burst levels m).level start = true ∧ 1 < (before burst levels m).control.left ∧
        (before burst levels (m + 1)).control.left = (before burst levels m).control.left - 1 := by
    rw [before_succ] at high ⊢
    obtain ⟨next, left⟩ := level_of_not_writes burst (pulsing_before burst levels m)
      (quiet m after)
    have more := next.symm.trans high
    rw [Bool.and_eq_true, decide_eq_true_eq] at more
    exact ⟨more.1, more.2, left high⟩
  refine Bool.eq_false_iff.mpr fun third => ?_
  obtain ⟨second, last, _⟩ := step (n + 2) (by omega) third
  obtain ⟨first, _, fewer⟩ := step (n + 1) (by omega) second
  obtain ⟨high, _, few⟩ := step n le_rfl first
  have most := counted.tracks.left_le high
  change (before burst levels (n + 2)).control.left = _ at fewer
  omega

/-- After the last write its pulse comes within five clocks. -/
theorem written_le_delivered
    (counted : ∀ m, Counted start burst levels m)
    (quiet : ∀ m, n ≤ m → (before burst levels m).writes start (levels m) = false) :
    written start burst levels n ≤ delivered start burst levels (n + 5) := by
  have low := level_falls (counted n) quiet
  have still : (before burst levels (n + 4)).level start = false := by
    rw [before_succ burst levels (n + 3), (level_of_not_writes burst (pulsing_before burst levels _)
      (quiet (n + 3) (by omega))).1, low, Bool.false_and]
  have tracks := (counted (n + 3)).tracks
  rw [low] at tracks
  have settles := tracks.settles
  have first : delivered start burst levels (n + 4) = delivered start burst levels (n + 3) +
      (start.converter (before burst levels (n + 3)).buffer).delivers false := by
    rw [delivered, pulses_eq, low]
  have second : delivered start burst levels (n + 5) = delivered start burst levels (n + 4) +
      ((start.converter (before burst levels (n + 3)).buffer).twice false).delivers false := by
    rw [delivered, pulses_eq, still, before_succ burst levels (n + 3), converter_clock, low]
  have earlier := written_mono start burst levels (Nat.le_add_right n 3)
  omega

/-- Every write becomes exactly one pulse if and only if each finds that the converter took its
last request at least seven edges before. -/
theorem exactly_once_iff (start : Start) (burst : Nat) (levels : Nat → Levels w) :
    ExactlyOnce start burst levels ↔
      ∀ n, (before burst levels n).writes start (levels n) = true →
        (start.converter (before burst levels n).buffer).Ready := by
  constructor
  · intro once n
    induction n using Nat.strong_induction_on with
    | _ n inductionHypothesis =>
      intro write
      by_contra busy
      exact not_exactlyOnce_of_busy (counted_of_ready inductionHypothesis) write busy once
  · intro ready
    have counted (n : Nat) : Counted start burst levels n :=
      counted_of_ready fun m _ => ready m
    refine ⟨fun n => (counted n).atMost, fun n write => ((counted n).write write (ready n write)).2,
      fun n => ?_⟩
    by_cases more : ∃ m, n ≤ m ∧ (before burst levels m).writes start (levels m) = true
    · obtain ⟨m, after, write⟩ := more
      refine ⟨m, ?_⟩
      rw [((counted m).write write (ready m write)).2]
      exact written_mono start burst levels after
    · exact ⟨n + 5, written_le_delivered counted fun m after =>
        Bool.eq_false_iff.mpr fun write => more ⟨m, after, write⟩⟩

end Counts

/-! ### Two pulse writes without a pause -/

/-- A pulse write of all three bits is always on the output of the command FIFO. -/
def backToBack (_ : Nat) : Levels 4 where
  control := ⟨false, 0x0000b0038, false, 0, 0, 0, true, false⟩
  first := .low
  second := .low

/-- Every second of the pulses is missing. -/
theorem back_to_back_dropped : ¬ExactlyOnce .wrStart 1 backToBack := fun once =>
  absurd (once.inTime 10 (by decide +kernel)) (by decide +kernel)

end Board

end K71GbE
