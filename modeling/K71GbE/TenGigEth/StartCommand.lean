/-
This file joins `control_interface` and `ten_gig_eth_packet_gen_simple` by bit 0
of `PULSE_REG`, and counts the writes of that bit and the frames they become.

The clock of the stream runs at twice the control clock. The start line is the
bit itself, a level of six clocks of the stream, and the generator samples it
whenever it is at rest. The contents of the packet RAM are free at every clock,
and `RESET` stays low.
-/

import K71GbE.Clocked.Progress
import K71GbE.Control.Pulses
import K71GbE.TenGigEth.PacketGen

namespace K71GbE.TenGigEth

open Clocked Control

/-! ### The two designs -/

/-- The levels at the other inputs during one control clock: those of `control_interface`,
`TREADY` at the two clocks of the stream, and the contents of the packet RAM. -/
structure TxLevels where
  control : Ports
  firstReady : Bool
  secondReady : Bool
  ram : BitVec 11 → BitVec 64

/-- `control_interface` and `ten_gig_eth_packet_gen_simple`. -/
structure TxBoard where
  control : ControlInterface
  generator : PacketGen

/-- `TVALID` rises. -/
def rises (old next : PacketGen) : Bool := !old.txAxisTvalid && next.txAxisTvalid

namespace TxBoard

def powerOn : TxBoard := ⟨.powerOn, .idle⟩

/-- The inputs of `control_interface`. -/
def ports (levels : TxLevels) : Ports := { levels.control with reset := false }

/-- `config_reg(15 DOWNTO 0)`. -/
def txBytes (board : TxBoard) : BitVec 16 := part 16 board.control.sConfigReg 0

/-- `ten_gig_eth_tx_start`. -/
def txStart (board : TxBoard) : Bool := board.control.sPulseReg.getLsbD 0

/-- The inputs of the generator. -/
def genInput (board : TxBoard) (ready : Bool) : GenInput := ⟨board.txStart, board.txBytes, ready⟩

/-- The generator after the first of its two clocks. -/
def between (board : TxBoard) (levels : TxLevels) : PacketGen :=
  board.generator.clock levels.ram (board.genInput levels.firstReady)

/-- One control clock. -/
def clock (board : TxBoard) (levels : TxLevels) : TxBoard where
  control := board.control.clock (ports levels)
  generator := (board.between levels).clock levels.ram (board.genInput levels.secondReady)

/-- The command interpreted at this edge writes bit 0 of the pulse register. -/
def writes (board : TxBoard) (levels : TxLevels) : Bool :=
  board.control.writesBit (ports levels) 0

/-- The rises of `TVALID` in one control clock. -/
def begun (board : TxBoard) (levels : TxLevels) : Nat :=
  (rises board.generator (board.between levels)).toNat +
    (rises (board.between levels) (board.clock levels).generator).toNat

/-- The marks of the words transferred in one control clock. -/
def marks (board : TxBoard) (levels : TxLevels) : List (BitVec 8 × Bool) :=
  (board.generator.transferred (board.genInput levels.firstReady) ++
    (board.between levels).transferred (board.genInput levels.secondReady)).map TxBeat.marks

/-- The board before control clock `n`. -/
def before (levels : Nat → TxLevels) (n : Nat) : TxBoard := run clock powerOn (upTo levels n)

/-- `TX_BYTES` at the writes of the bit before control clock `n`. -/
def written (levels : Nat → TxLevels) : Nat → List (BitVec 16)
  | 0 => []
  | n + 1 =>
    written levels n ++
      if (before levels n).writes (levels n) then [(before levels n).txBytes] else []

/-- The frames begun before control clock `n`. -/
def frames (levels : Nat → TxLevels) : Nat → Nat
  | 0 => 0
  | n + 1 => frames levels n + (before levels n).begun (levels n)

/-- The marks of the words transferred before control clock `n`. -/
def sent (levels : Nat → TxLevels) : Nat → List (BitVec 8 × Bool)
  | 0 => []
  | n + 1 => sent levels n ++ (before levels n).marks (levels n)

/-- Every write asks for a frame long enough to be sent, and finds the words of the last frame
transferred. -/
structure Spaced (levels : Nat → TxLevels) : Prop where
  long : ∀ n, (before levels n).writes (levels n) = true → 14 ≤ (before levels n).txBytes.toNat
  finished : ∀ n, (before levels n).writes (levels n) = true →
    (before levels (n + 1)).generator.pktState ≠ .s1

/-- Every write becomes one frame: none begins without a write, at every write those of the earlier
ones are sent, and at last that of the last one begins. All words are those of these frames. -/
structure OneFrameEach (levels : Nat → TxLevels) : Prop where
  atMost : ∀ n, frames levels n ≤ (written levels n).length
  inTime : ∀ n, (before levels n).writes (levels n) = true →
    frames levels (n + 1) = (written levels n).length ∧
      sent levels (n + 1) = (written levels n).flatMap frameMarks
  atLast : ∀ n, ∃ m, (written levels n).length ≤ frames levels m
  words : ∀ n, sent levels n <+: (written levels n).flatMap frameMarks

/-- The words of the frame of a write at control clock `n` that are transferred while enough of the
pulse is left to start another frame. -/
def early (levels : Nat → TxLevels) (n : Nat) : Nat :=
  (if (before levels (n + 1)).generator.pktState = .s0 then (levels (n + 1)).secondReady.toNat
    else 0) +
    (levels (n + 2)).firstReady.toNat + (levels (n + 2)).secondReady.toNat

end TxBoard

/-! ### What a generator owes to the stream -/

/-- A clock takes the start line. -/
def starts (state : PacketGen) (input : GenInput) : Bool :=
  state.pktState == .s0 && input.txStart

/-- The marks of words and the rises of `TVALID` that a generator will put on the stream for a
frame it has begun. -/
inductive Owes : PacketGen → List (BitVec 8 × Bool) → Nat → Prop
  | nothing {state : PacketGen} (other : state.pktState ≠ .s1) : Owes state [] 0
  | rest {state : PacketGen} {bytes : BitVec 16} {k : Nat} (framing : Framing bytes k state) :
    Owes state ((frameMarks bytes).drop k) (!state.txAxisTvalid).toNat

section Generator

variable {state : PacketGen} {input : GenInput} {bytes : BitVec 16} {k due : Nat}
  {owed : List (BitVec 8 × Bool)}

theorem drop_frameMarks_of_last (last : k + 1 = beatCount bytes) :
    (frameMarks bytes).drop (k + 1) = [] := by
  rw [List.drop_eq_nil_iff, length_frameMarks, last]

/-- Nothing starts while a frame is sent. -/
theorem Framing.not_starts (framing : Framing bytes k state) (input : GenInput) :
    starts state input = false := by
  rw [starts, framing.sending]
  rfl

/-- `TVALID` is high at every clock of a frame. -/
theorem Framing.txAxisTvalid (framing : Framing bytes k state) (ram : BitVec 11 → BitVec 64)
    (input : GenInput) : (state.clock ram input).txAxisTvalid = true := by
  cases ready : input.txAxisTready with
  | true => rw [clock_of_ready ram framing.sending ready]
  | false => rw [clock_of_stall ram framing.sending ready]

/-- Outside a frame `TVALID` is low. -/
theorem txAxisTvalid_of_other (ram : BitVec 11 → BitVec 64) (other : state.pktState ≠ .s1)
    (input : GenInput) : (state.clock ram input).txAxisTvalid = false := by
  unfold PacketGen.clock PacketGen.rising PacketGen.falling PacketGen.pktSm
  cases at_ : state.pktState with
  | s1 => exact absurd at_ other
  | s0 => cases input.txStart <;> rfl
  | _ => rfl

/-- Outside a frame a clock that takes no start comes to rest. -/
theorem atRest_of_not_starts (ram : BitVec 11 → BitVec 64) (other : state.pktState ≠ .s1)
    (quiet : starts state input = false) : (state.clock ram input).pktState = .s0 := by
  unfold PacketGen.clock PacketGen.rising PacketGen.falling PacketGen.pktSm
  cases at_ : state.pktState with
  | s1 => exact absurd at_ other
  | s0 =>
    rw [starts, at_] at quiet
    rw [show input.txStart = false from quiet]
    rfl
  | _ => rfl

/-- What is owed is put on the stream, and a start adds a frame to it. -/
theorem Owes.clock (owes : Owes state owed due) (ram : BitVec 11 → BitVec 64)
    (long : starts state input = true → 14 ≤ input.txBytes.toNat) :
    ∃ owed' due', Owes (state.clock ram input) owed' due' ∧
      owed ++ (if starts state input then frameMarks input.txBytes else []) =
        (state.transferred input).map TxBeat.marks ++ owed' ∧
      due + (starts state input).toNat = (rises state (state.clock ram input)).toNat + due' ∧
      due ≤ (rises state (state.clock ram input)).toNat := by
  cases owes with
  | nothing other =>
    have low : rises state (state.clock ram input) = false := by
      rw [rises, txAxisTvalid_of_other ram other, Bool.and_false]
    rw [transferred_of_other input other, low]
    cases start : starts state input with
    | true =>
      obtain ⟨atRest, high⟩ := Bool.and_eq_true_iff.mp start
      have framing := framing_of_start ram input (eq_of_beq atRest) high (long start)
      have valid := txAxisTvalid_of_other ram other input
      refine ⟨_, _, .rest framing, rfl, ?_, le_rfl⟩
      rw [valid]
      rfl
    | false =>
      refine ⟨[], 0, .nothing ?_, rfl, rfl, le_rfl⟩
      rw [atRest_of_not_starts ram other start]
      decide
  | rest framing =>
    rename_i bytes k
    have high := framing.txAxisTvalid ram input
    have rise : rises state (state.clock ram input) = !state.txAxisTvalid := by
      rw [rises, high, Bool.and_true]
    rw [framing.not_starts, rise, framing.transferred]
    cases ready : input.txAxisTready with
    | false =>
      refine ⟨_, _, .rest (framing.stalled ram ready), ?_, ?_, le_rfl⟩
      · exact List.append_nil _
      · rw [high]
        rfl
    | true =>
      rw [if_neg Bool.false_ne_true, List.append_nil, drop_frameMarks _ framing.within]
      rcases Nat.lt_or_eq_of_le (Nat.succ_le_of_lt framing.within) with more | last
      · refine ⟨_, _, .rest (framing.next ram ready more), rfl, ?_, le_rfl⟩
        rw [high]
        rfl
      · refine ⟨[], 0, .nothing ?_, ?_, rfl, le_rfl⟩
        · rw [framing.last ram ready last]
          decide
        · rw [drop_frameMarks_of_last last]
          rfl

end Generator

namespace TxBoard

/-! ### The starts in one control clock -/

/-- `TX_BYTES` at the starts taken in one control clock. -/
def startedIn (board : TxBoard) (levels : TxLevels) : List (BitVec 16) :=
  (if starts board.generator (board.genInput levels.firstReady) then [board.txBytes] else []) ++
    if starts (board.between levels) (board.genInput levels.secondReady) then [board.txBytes]
    else []

/-- `TX_BYTES` at the starts taken before control clock `n`. -/
def started (levels : Nat → TxLevels) : Nat → List (BitVec 16)
  | 0 => []
  | n + 1 => started levels n ++ (before levels n).startedIn (levels n)

section Starts

variable {board : TxBoard} {bytes : BitVec 16} {k : Nat}

/-- What is owed, over one control clock. -/
theorem owes_clock {owed : List (BitVec 8 × Bool)} {due : Nat}
    (owes : Owes board.generator owed due) (levels : TxLevels)
    (long : board.txStart = true → 14 ≤ board.txBytes.toNat) :
    ∃ owed' due', Owes (board.clock levels).generator owed' due' ∧
      owed ++ (board.startedIn levels).flatMap frameMarks = board.marks levels ++ owed' ∧
      due + (board.startedIn levels).length = board.begun levels + due' ∧
      due ≤ board.begun levels := by
  have enough (state : PacketGen) (ready : Bool)
      (start : starts state (board.genInput ready) = true) :
      14 ≤ (board.genInput ready).txBytes.toNat := long (Bool.and_eq_true_iff.mp start).2
  obtain ⟨middle, left, first, words, count, soon⟩ :=
    owes.clock levels.ram (enough _ levels.firstReady)
  obtain ⟨owed', due', second, words', count', _⟩ :=
    first.clock levels.ram (enough _ levels.secondReady)
  refine ⟨owed', due', second, ?_, ?_, soon.trans (Nat.le_add_right _ _)⟩
  · have split : (board.startedIn levels).flatMap frameMarks =
        (if starts board.generator (board.genInput levels.firstReady) then
          frameMarks board.txBytes else []) ++
        if starts (board.between levels) (board.genInput levels.secondReady) then
          frameMarks board.txBytes else [] := by
      rw [startedIn, List.flatMap_append]
      split_ifs <;> simp
    rw [split, ← List.append_assoc]
    refine (congrArg (· ++ _) words).trans ?_
    rw [List.append_assoc]
    refine (congrArg (_ ++ ·) words').trans ?_
    rw [marks, List.map_append, List.append_assoc]
    rfl
  · have length : (board.startedIn levels).length =
        (starts board.generator (board.genInput levels.firstReady)).toNat +
        (starts (board.between levels) (board.genInput levels.secondReady)).toNat := by
      rw [startedIn, List.length_append]
      split_ifs <;> simp_all
    rw [length, ← Nat.add_assoc]
    refine (congrArg (· + _) count).trans ?_
    rw [Nat.add_assoc]
    refine (congrArg (_ + ·) count').trans ?_
    exact (Nat.add_assoc _ _ _).symm

/-- With the start line low nothing starts. -/
theorem startedIn_of_low (low : board.txStart = false) (levels : TxLevels) :
    board.startedIn levels = [] := by
  have noStart (state : PacketGen) (ready : Bool) :
      starts state (board.genInput ready) = false := by
    rw [starts, genInput, low, Bool.and_false]
  rw [startedIn, noStart, noStart]
  rfl

/-- One clock of a frame that goes on. -/
theorem framing_clock {state : PacketGen} (framing : Framing bytes k state)
    (ram : BitVec 11 → BitVec 64) (input : GenInput)
    (more : k + input.txAxisTready.toNat < beatCount bytes) :
    Framing bytes (k + input.txAxisTready.toNat) (state.clock ram input) := by
  cases ready : input.txAxisTready with
  | false => exact framing.stalled ram ready
  | true =>
    rw [ready] at more
    exact framing.next ram ready more

/-- One clock of a frame that ends. -/
theorem ended_clock {state : PacketGen} {input : GenInput} (framing : Framing bytes k state)
    (ram : BitVec 11 → BitVec 64) (spent : beatCount bytes ≤ k + input.txAxisTready.toNat) :
    (state.clock ram input).pktState = .s2 := by
  have within := framing.within
  cases ready : input.txAxisTready with
  | false =>
    rw [ready] at spent
    exact absurd within (Nat.not_lt.mpr spent)
  | true =>
    rw [ready] at spent
    exact framing.last ram ready (Nat.le_antisymm within spent)

/-- Nothing starts in a control clock that begins within a frame. -/
theorem startedIn_of_framing (framing : Framing bytes k board.generator) (levels : TxLevels) :
    board.startedIn levels = [] := by
  have second : starts (board.between levels) (board.genInput levels.secondReady) = false := by
    by_cases more : k + levels.firstReady.toNat < beatCount bytes
    · exact (framing_clock framing levels.ram (board.genInput levels.firstReady) more).not_starts _
    · have ended : (board.between levels).pktState = .s2 :=
        ended_clock framing levels.ram (Nat.le_of_not_lt more)
      rw [starts, ended]
      rfl
  rw [startedIn, framing.not_starts, second]
  rfl

/-- A frame that goes on for two clocks. -/
theorem framing_control (framing : Framing bytes k board.generator) {levels : TxLevels}
    (more : k + levels.firstReady.toNat + levels.secondReady.toNat < beatCount bytes) :
    Framing bytes (k + levels.firstReady.toNat + levels.secondReady.toNat)
      (board.clock levels).generator := by
  have first : Framing bytes (k + levels.firstReady.toNat) (board.between levels) :=
    framing_clock framing levels.ram (board.genInput levels.firstReady)
      (Nat.lt_of_le_of_lt (Nat.le_add_right _ _) more)
  exact framing_clock first levels.ram (board.genInput levels.secondReady) more

/-- A frame that ends within two clocks. -/
theorem ended_control (framing : Framing bytes k board.generator) {levels : TxLevels}
    (spent : beatCount bytes ≤ k + levels.firstReady.toNat + levels.secondReady.toNat) :
    (board.clock levels).generator.pktState ≠ .s1 := by
  by_cases more : k + levels.firstReady.toNat < beatCount bytes
  · have first : Framing bytes (k + levels.firstReady.toNat) (board.between levels) :=
      framing_clock framing levels.ram (board.genInput levels.firstReady) more
    have last : (board.clock levels).generator.pktState = .s2 := ended_clock first levels.ram spent
    rw [last]
    decide
  · have last : (board.between levels).pktState = .s2 :=
      ended_clock framing levels.ram (Nat.le_of_not_lt more)
    have atRest : (board.clock levels).generator.pktState = .s0 :=
      atRest_of_not_starts levels.ram (by rw [last]; decide) (by rw [starts, last]; rfl)
    rw [atRest]
    decide

/-- With the start line high a generator that sends no frame begins one. -/
theorem startedIn_of_high (high : board.txStart = true) (long : 14 ≤ board.txBytes.toNat)
    (other : board.generator.pktState ≠ .s1) (levels : TxLevels) :
    board.startedIn levels = [board.txBytes] ∧
      Framing board.txBytes
        (if board.generator.pktState = .s0 then levels.secondReady.toNat else 0)
        (board.clock levels).generator := by
  have begins {state : PacketGen} (ready : Bool) (atRest : state.pktState = .s0) :
      starts state (board.genInput ready) = true ∧
        Framing board.txBytes 0 (state.clock levels.ram (board.genInput ready)) := by
    have start : (board.genInput ready).txStart = true := high
    constructor
    · rw [starts, atRest, start]
      rfl
    · exact framing_of_start levels.ram (board.genInput ready) atRest start long
  by_cases atRest : board.generator.pktState = .s0
  · obtain ⟨start, framing⟩ := begins levels.firstReady atRest
    have first : Framing board.txBytes 0 (board.between levels) := framing
    have more : 0 + levels.secondReady.toNat < beatCount board.txBytes := by
      have small := Bool.toNat_le levels.secondReady
      unfold beatCount
      omega
    rw [startedIn, start, first.not_starts, if_pos atRest, ← Nat.zero_add levels.secondReady.toNat]
    exact ⟨rfl, framing_clock first levels.ram (board.genInput levels.secondReady) more⟩
  · have noStart : starts board.generator (board.genInput levels.firstReady) = false := by
      rw [starts, beq_eq_false_iff_ne.mpr atRest, Bool.false_and]
    obtain ⟨start, framing⟩ := begins levels.secondReady
      (atRest_of_not_starts levels.ram other noStart)
    have second : starts (board.between levels) (board.genInput levels.secondReady) = true := start
    rw [startedIn, noStart, second, if_neg atRest]
    exact ⟨rfl, framing⟩

end Starts

/-! ### The start line after a write -/

section Line

variable {levels : Nat → TxLevels} {m n : Nat}

theorem before_succ (levels : Nat → TxLevels) (n : Nat) :
    before levels (n + 1) = (before levels n).clock (levels n) := by
  rw [before, upTo_succ, run_concat, before]

theorem pulsing_before (levels : Nat → TxLevels) (n : Nat) :
    (before levels n).control.Pulsing := by
  induction n with
  | zero => exact .powerOn
  | succ n inductionHypothesis =>
    rw [before_succ]
    exact (inductionHypothesis.clock _ rfl).pulsing

/-- A write finds the start line low. -/
theorem low_of_writes (write : (before levels n).writes (levels n) = true) :
    (before levels n).txStart = false := by
  rw [txStart, ((pulsing_before levels n).bit_of_write (ports (levels n)) rfl write).1]
  exact BitVec.getLsbD_zero

theorem not_writes_of_high (high : (before levels n).txStart = true) :
    (before levels n).writes (levels n) = false :=
  Bool.eq_false_iff.mpr fun write => by simp [low_of_writes write] at high

/-- Some clocks after a write at control clock `m` the start line is high. -/
structure High (levels : Nat → TxLevels) (m j : Nat) : Prop where
  level : (before levels (m + 1 + j)).txStart = true
  left : (before levels (m + 1 + j)).control.left = 3 - j
  bytes : (before levels (m + 1 + j)).txBytes = (before levels m).txBytes

theorem high_of_writes (write : (before levels m).writes (levels m) = true) : High levels m 0 := by
  have pulsing := pulsing_before levels m
  obtain ⟨_, high, left⟩ := pulsing.bit_of_write (ports (levels m)) rfl write
  have masked : (before levels m).control.pulseWrite (ports (levels m)) ≠ none := fun unmasked => by
    rw [writes, ControlInterface.writesBit, unmasked] at write
    cases write
  have kept := pulsing.config_kept (ports (levels m)) rfl (Or.inl masked)
  constructor
  · rw [Nat.add_zero, before_succ]
    exact high
  · rw [Nat.add_zero, before_succ]
    exact left
  · rw [Nat.add_zero, before_succ]
    exact congrArg (part 16 · 0) kept

theorem not_writes_low (quiet : (before levels n).writes (levels n) = false) :
    (before levels (n + 1)).txStart =
      ((before levels n).txStart && decide (1 < (before levels n).control.left)) := by
  rw [before_succ]
  exact ((pulsing_before levels n).bit_of_not_write (ports (levels n)) rfl quiet).1

/-- The line stays high for three clocks. -/
theorem High.next {j : Nat} (high : High levels m j) (more : j < 2) : High levels m (j + 1) := by
  have pulsing := pulsing_before levels (m + 1 + j)
  have quiet := not_writes_of_high high.level
  have level : (before levels (m + 1 + (j + 1))).txStart = true := by
    rw [← Nat.add_assoc, not_writes_low quiet, high.level, high.left, Bool.true_and,
      decide_eq_true_eq]
    omega
  refine ⟨level, ?_, ?_⟩
  · rw [← Nat.add_assoc, before_succ] at level ⊢
    have left := (pulsing.bit_of_not_write (ports (levels (m + 1 + j))) rfl quiet).2 level
    exact left.trans (by rw [high.left, Nat.sub_sub])
  · have standing : (before levels (m + 1 + j)).control.sPulseReg ≠ 0 := fun clear => by
      have level := high.level
      rw [txStart, clear] at level
      simp at level
    have kept := pulsing.config_kept (ports (levels (m + 1 + j))) rfl (Or.inr standing)
    rw [← high.bytes, ← Nat.add_assoc, before_succ]
    exact congrArg (part 16 · 0) kept

theorem high_after (write : (before levels m).writes (levels m) = true) {j : Nat} (inside : j < 3) :
    High levels m j := by
  induction j with
  | zero => exact high_of_writes write
  | succ j inductionHypothesis =>
    exact (inductionHypothesis (Nat.lt_of_succ_lt inside)).next (Nat.lt_of_succ_lt_succ inside)

/-- The start line is high only after a write. -/
theorem exists_write (level : (before levels n).txStart = true) :
    ∃ m j, n = m + 1 + j ∧ j < 3 ∧ (before levels m).writes (levels m) = true := by
  induction n with
  | zero =>
    have low : (before levels 0).txStart = false := BitVec.getLsbD_zero
    rw [low] at level
    cases level
  | succ n inductionHypothesis =>
    cases write : (before levels n).writes (levels n) with
    | true => exact ⟨n, 0, rfl, by decide, write⟩
    | false =>
      rw [not_writes_low write, Bool.and_eq_true, decide_eq_true_eq] at level
      obtain ⟨m, j, rfl, small, write⟩ := inductionHypothesis level.1
      have left := (high_after write small).left
      exact ⟨m, j + 1, rfl, by omega, write⟩

end Line

/-! ### Writes and starts -/

section Counts

variable {levels : Nat → TxLevels} {n : Nat}

theorem Spaced.long_of_high (spaced : Spaced levels) (high : (before levels n).txStart = true) :
    14 ≤ (before levels n).txBytes.toNat := by
  obtain ⟨m, j, rfl, small, write⟩ := exists_write high
  rw [(high_after write small).bytes]
  exact spaced.long m write

/-- What was started is on the stream or owed. -/
theorem Spaced.ledger (spaced : Spaced levels) (n : Nat) :
    ∃ owed due, Owes (before levels n).generator owed due ∧
      (started levels n).flatMap frameMarks = sent levels n ++ owed ∧
      (started levels n).length = frames levels n + due ∧
      due ≤ (before levels n).begun (levels n) := by
  induction n with
  | zero =>
    have atRest : (before levels 0).generator.pktState = .s0 := rfl
    exact ⟨[], 0, .nothing (by rw [atRest]; decide), rfl, rfl, Nat.zero_le _⟩
  | succ n inductionHypothesis =>
    obtain ⟨owed, due, owes, words, count, _⟩ := inductionHypothesis
    obtain ⟨owed', due', next, words', count', _⟩ :=
      owes_clock owes (levels n) spaced.long_of_high
    rw [← before_succ] at next
    obtain ⟨_, _, _, _, _, soon⟩ := owes_clock next (levels (n + 1)) spaced.long_of_high
    refine ⟨owed', due', next, ?_, ?_, soon⟩
    · rw [started, List.flatMap_append, words, List.append_assoc, words', sent, List.append_assoc]
    · rw [started, List.length_append, count, Nat.add_assoc, count', frames, Nat.add_assoc]

/-- After a write the first control clock starts its frame. -/
theorem Spaced.first (spaced : Spaced levels)
    (write : (before levels n).writes (levels n) = true) :
    (before levels (n + 1)).startedIn (levels (n + 1)) = [(before levels n).txBytes] ∧
      Framing (before levels n).txBytes
        (if (before levels (n + 1)).generator.pktState = .s0 then
          (levels (n + 1)).secondReady.toNat else 0)
        (before levels (n + 2)).generator := by
  have high := high_of_writes write
  have long := spaced.long_of_high high.level
  have begun := startedIn_of_high high.level long (spaced.finished n write) (levels (n + 1))
  rw [high.bytes] at begun
  rw [before_succ levels (n + 1)]
  exact begun

/-- The second one starts none. -/
theorem Spaced.second (spaced : Spaced levels)
    (write : (before levels n).writes (levels n) = true) :
    (before levels (n + 2)).startedIn (levels (n + 2)) = [] :=
  startedIn_of_framing (spaced.first write).2 _

/-- The third one starts none if and only if the frame is not over early. -/
theorem Spaced.third (spaced : Spaced levels)
    (write : (before levels n).writes (levels n) = true) :
    (before levels (n + 3)).startedIn (levels (n + 3)) =
      if early levels n < beatCount (before levels n).txBytes then []
      else [(before levels n).txBytes] := by
  obtain ⟨_, framing⟩ := spaced.first write
  by_cases slow : early levels n < beatCount (before levels n).txBytes
  · have next := framing_control framing slow
    rw [← before_succ] at next
    rw [if_pos slow]
    exact startedIn_of_framing next _
  · have ended := ended_control framing (Nat.le_of_not_lt slow)
    have high := high_after write (j := 2) (by decide)
    have long := spaced.long_of_high high.level
    rw [← before_succ] at ended
    rw [if_neg slow, ← high.bytes]
    exact (startedIn_of_high high.level long ended _).1

/-- Without a write in the clock before it, a control clock starts a frame only if the frame of the
last write is over too early. -/
theorem Spaced.startedIn_succ (spaced : Spaced levels)
    (slow : ∀ m < n + 1, (before levels m).writes (levels m) = true →
      early levels m < beatCount (before levels m).txBytes) :
    (before levels (n + 1)).startedIn (levels (n + 1)) =
      if (before levels n).writes (levels n) then [(before levels n).txBytes] else [] := by
  cases write : (before levels n).writes (levels n) with
  | true =>
    have high := high_of_writes write
    rw [(spaced.first write).1, if_pos rfl]
  | false =>
    cases level : (before levels (n + 1)).txStart with
    | false => exact startedIn_of_low level _
    | true =>
      obtain ⟨m, j, place, small, earlier⟩ := exists_write level
      rw [if_neg Bool.false_ne_true]
      match j, place, small with
      | 0, place, _ =>
        obtain rfl : n = m := Nat.succ.inj place
        rw [write] at earlier
        cases earlier
      | 1, place, _ =>
        obtain rfl : n = m + 1 := Nat.succ.inj place
        exact spaced.second earlier
      | 2, place, _ =>
        obtain rfl : n = m + 2 := Nat.succ.inj place
        rw [spaced.third earlier, if_pos (slow m (by omega) earlier)]

/-- As long as no frame is over early, each write has started one frame by the clock after it. -/
theorem Spaced.started_succ (spaced : Spaced levels)
    (slow : ∀ m < n, (before levels m).writes (levels m) = true →
      early levels m < beatCount (before levels m).txBytes) :
    started levels (n + 1) = written levels n := by
  induction n with
  | zero =>
    have low : (before levels 0).txStart = false := BitVec.getLsbD_zero
    exact startedIn_of_low low _
  | succ n inductionHypothesis =>
    rw [started, inductionHypothesis fun m earlier => slow m (Nat.lt_succ_of_lt earlier), written,
      spaced.startedIn_succ slow]

theorem length_written_le (levels : Nat → TxLevels) (n : Nat) :
    (written levels n).length ≤ (written levels (n + 1)).length := by
  rw [written, List.length_append]
  exact Nat.le_add_right _ _

/-- The frames of a control clock have begun by the end of the next one. -/
theorem Spaced.length_started_le (spaced : Spaced levels) (n : Nat) :
    (started levels n).length ≤ frames levels (n + 1) := by
  obtain ⟨_, due, _, _, count, soon⟩ := spaced.ledger n
  rw [count, frames]
  exact Nat.add_le_add_left soon _

/-- Where no frame is over early, every write becomes one frame. -/
theorem Spaced.oneFrameEach (spaced : Spaced levels)
    (slow : ∀ n, (before levels n).writes (levels n) = true →
      early levels n < beatCount (before levels n).txBytes) : OneFrameEach levels := by
  have each (n : Nat) : started levels (n + 1) = written levels n :=
    spaced.started_succ fun m _ => slow m
  constructor
  · intro n
    cases n with
    | zero => exact le_rfl
    | succ n =>
      obtain ⟨_, due, _, _, count, _⟩ := spaced.ledger (n + 1)
      rw [each] at count
      exact le_trans (by omega) (length_written_le levels n)
  · intro n write
    obtain ⟨owed, due, owes, words, count, _⟩ := spaced.ledger (n + 1)
    rw [each] at words count
    cases owes with
    | nothing _ => exact ⟨count.symm, (words.trans (List.append_nil _)).symm⟩
    | rest framing => exact absurd framing.sending (spaced.finished n write)
  · intro n
    refine ⟨n + 2, ?_⟩
    rw [← each]
    exact spaced.length_started_le (n + 1)
  · intro n
    cases n with
    | zero => exact List.nil_prefix
    | succ n =>
      obtain ⟨owed, _, _, words, _, _⟩ := spaced.ledger (n + 1)
      rw [each] at words
      rw [written, List.flatMap_append, words]
      exact (List.prefix_append _ _).trans (List.prefix_append _ _)

/-- A frame that is over early is followed by another one that no write asked for. -/
theorem Spaced.not_oneFrameEach (spaced : Spaced levels)
    (slow : ∀ m < n, (before levels m).writes (levels m) = true →
      early levels m < beatCount (before levels m).txBytes)
    (write : (before levels n).writes (levels n) = true)
    (spent : ¬early levels n < beatCount (before levels n).txBytes) : ¬OneFrameEach levels := by
  intro each
  have third := spaced.third write
  rw [if_neg spent] at third
  have two : (started levels (n + 4)).length = (written levels n).length + 2 := by
    rw [started, started, started, spaced.started_succ slow, (spaced.first write).1,
      spaced.second write, third]
    simp
  have noWrite (j : Nat) (inside : j < 3) :
      (before levels (n + 1 + j)).writes (levels (n + 1 + j)) = false :=
    not_writes_of_high (high_after write inside).level
  have one : (written levels (n + 4)).length = (written levels n).length + 1 := by
    rw [written, written, written, written, write, noWrite 0 (by decide), noWrite 1 (by decide),
      noWrite 2 (by decide)]
    simp
  have begun : (started levels (n + 4)).length ≤ frames levels (n + 5) :=
    spaced.length_started_le (n + 4)
  cases again : (before levels (n + 4)).writes (levels (n + 4)) with
  | true =>
    have inTime : frames levels (n + 5) = (written levels (n + 4)).length :=
      (each.inTime (n + 4) again).1
    omega
  | false =>
    have atMost := each.atMost (n + 5)
    rw [written, again, if_neg Bool.false_ne_true, List.append_nil, one] at atMost
    omega

/-- Every write becomes exactly one frame if and only if after each the frame is not over while
three clocks of the start line are left. -/
theorem one_frame_each_iff (levels : Nat → TxLevels) (spaced : Spaced levels) :
    OneFrameEach levels ↔
      ∀ n, (before levels n).writes (levels n) = true →
        early levels n < beatCount (before levels n).txBytes := by
  constructor
  · intro each n
    induction n using Nat.strong_induction_on with
    | _ n inductionHypothesis =>
      intro write
      by_contra spent
      exact spaced.not_oneFrameEach inductionHypothesis write spent each
  · exact spaced.oneFrameEach

end Counts

/-! ### One command for a frame -/

/-- Once no command comes any more, none is interpreted. -/
theorem not_writes_of_empty {levels : Nat → TxLevels} {n : Nat}
    (empty : ∀ m, n ≤ m → (levels m).control.cmdFifoEmpty = true)
    (waits : (before levels n).control.cmdState = .waitCmd) {m : Nat} (later : n ≤ m) :
    (before levels m).writes (levels m) = false := by
  have still : (before levels m).control.cmdState = .waitCmd := by
    induction m, later using Nat.le_induction with
    | base => exact waits
    | succ m later inductionHypothesis =>
      have empty : (ports (levels m)).cmdFifoEmpty = true := empty m later
      rw [before_succ]
      show ((before levels m).control.cmdIF (ports (levels m))).cmdState = .waitCmd
      unfold ControlInterface.cmdIF
      rw [inductionHypothesis, empty]
      exact inductionHypothesis
  rw [writes, ControlInterface.writesBit, ControlInterface.pulseWrite,
    if_neg fun write => by simp [still] at write]

/-- The length of a frame is written, then bit 0 of the pulse register; the receiver is always
ready. -/
def commanded (bytes : BitVec 16) (n : Nat) : TxLevels where
  control :=
    ⟨false, if n < 4 then 0#4 ++ (0x0020#16 ++ bytes) else 0x0000b0001, decide (4 ≤ n), 0, 0, 0,
      true, false⟩
  firstReady := true
  secondReady := true
  ram := fun _ => 0

section Commanded

variable {bytes : BitVec 16}

/-- The two commands are done by the eighth clock. -/
theorem lt_of_writes_commanded (waits : (before (commanded bytes) 8).control.cmdState = .waitCmd)
    {n : Nat} (write : (before (commanded bytes) n).writes (commanded bytes n) = true) :
    n < 8 := by
  refine Nat.lt_of_not_le fun later => ?_
  have noWrite := not_writes_of_empty (fun m after => decide_eq_true (by omega)) waits later
  rw [noWrite] at write
  cases write

theorem spaced_commanded (waits : (before (commanded bytes) 8).control.cmdState = .waitCmd)
    (first : ∀ n < 8, (before (commanded bytes) n).writes (commanded bytes n) = true →
      14 ≤ (before (commanded bytes) n).txBytes.toNat ∧
        (before (commanded bytes) (n + 1)).generator.pktState ≠ .s1) :
    Spaced (commanded bytes) :=
  ⟨fun n write => (first n (lt_of_writes_commanded waits write) write).1,
    fun n write => (first n (lt_of_writes_commanded waits write) write).2⟩

end Commanded

/-- A frame of 25 bytes is sent once. -/
theorem one_frame_of_25 : OneFrameEach (commanded 25) := by
  have waits : (before (commanded 25) 8).control.cmdState = .waitCmd := by decide +kernel
  have slow : ∀ n < 8, (before (commanded 25) n).writes (commanded 25 n) = true →
      early (commanded 25) n < beatCount (before (commanded 25) n).txBytes := by decide +kernel
  exact (one_frame_each_iff (commanded 25) (spaced_commanded waits (by decide +kernel))).mpr
    fun n write => slow n (lt_of_writes_commanded waits write) write

/-- A frame of 14 bytes is sent twice. -/
theorem two_frames_of_14 : Spaced (commanded 14) ∧ ¬OneFrameEach (commanded 14) := by
  refine ⟨spaced_commanded (by decide +kernel) (by decide +kernel), fun each => ?_⟩
  exact absurd (each.atMost 9) (by decide +kernel)

end TxBoard

end K71GbE.TenGigEth
