/-
This file is about the frame stores over whole runs, as their read side sees them.

The clocks may have any phase. All that is asked of them is that neither is several
times as fast as the other: a frame must be seen as stored before the next one is,
and its last word must be in the RAM before the reader has heard of it. What the
write side keeps to is a hypothesis here, and proved for each of the two stores.
-/

import K71GbE.Clocked.Progress
import K71GbE.TenGigEth.FifoRead

namespace K71GbE.TenGigEth

open Clocked

variable {w : Nat}

/-- The inputs of the write side at an edge of its clock. -/
def FifoTick.axis : FifoTick w → Option WrAxis
  | .write axis | .both axis _ _ => some axis
  | .read _ => none

/-- Whether the receiver is ready at an edge of the read clock. -/
def FifoTick.tready : FifoTick w → Option Bool
  | .read tready | .both _ tready _ => some tready
  | .write _ => none

/-- A beat is transferred out of the FIFO. -/
def AxiFifo.delivers (fifo : AxiFifo w) (tick : FifoTick w) : Bool :=
  fifo.rd.rdAxisTvalid && tick.tready.getD false

/-- The edges of the read clock since the last one of the write clock. -/
def FifoTick.readsAfter (reads : Nat) : FifoTick w → Nat
  | .read _ => reads + 1
  | _ => 0

/-- The edges of the write clock that no edge of the read clock has followed. -/
def FifoTick.writesAfter (writes : Nat) : FifoTick w → Nat
  | .read _ => 0
  | .write _ => writes + 1
  | .both _ _ _ => 1

/-- The FIFO before each tick since the end of the resets. -/
structure FifoRun (wrFlowCtrl : Bool) (w : Nat) where
  fifo : Nat → AxiFifo w
  tick : Nat → FifoTick w
  reset : ∃ before : AxiFifo w, before.wr.wrEof = false ∧ fifo 0 = before.reset
  clocked : ∀ n, fifo (n + 1) = (fifo n).step wrFlowCtrl (tick n)

namespace FifoRun

variable {wrFlowCtrl : Bool}

/-- The beats transferred out of the FIFO before tick `n`. -/
def delivered (run : FifoRun wrFlowCtrl w) : Nat → Nat
  | 0 => 0
  | n + 1 => run.delivered n + ((run.fifo n).delivers (run.tick n)).toNat

/-- The edges of the read clock since the last one of the write clock. -/
def reads (run : FifoRun wrFlowCtrl w) : Nat → Nat
  | 0 => 0
  | n + 1 => (run.tick n).readsAfter (run.reads n)

/-- The edges of the write clock that no edge of the read clock has followed. -/
def writes (run : FifoRun wrFlowCtrl w) : Nat → Nat
  | 0 => 0
  | n + 1 => (run.tick n).writesAfter (run.writes n)

/-- Between two edges of the write clock come four of the read clock at most, and never three of the
write clock without one of the read clock. -/
def Paced (run : FifoRun wrFlowCtrl w) : Prop :=
  ∀ n, match (run.tick n).tready with
    | none => run.writes n ≤ 1
    | some _ => run.reads n ≤ 3

/-- The receiver is ready again and again. -/
def Ready (run : FifoRun wrFlowCtrl w) : Prop :=
  ∀ n, ∃ m, n ≤ m ∧ (run.tick m).tready = some true

/-! ### The marks of the read side -/

/-- The words fetched from the RAM. -/
def read (run : FifoRun wrFlowCtrl w) : Nat → Nat
  | 0 => 0
  | n + 1 => run.read n + ((run.tick n).tready.any (run.fifo n).rd.rdEnable).toNat

/-- Where the read pointer was when it was last put out in Gray code. -/
def gray (run : FifoRun wrFlowCtrl w) : Nat → Nat
  | 0 => 0
  | n + 1 => if (run.tick n).tready.isSome then run.read n else run.gray n

/-- The frames taken off the counter. -/
def begun (run : FifoRun wrFlowCtrl w) : Nat → Nat
  | 0 => 0
  | n + 1 =>
    run.begun n +
      ((run.tick n).tready.isSome && decide ((run.fifo n).rd.rdState = .init1)).toNat

/-- The frames known along the synchronizer, when `level n` are stored before tick `n`. -/
def known (run : FifoRun wrFlowCtrl w) (level : Nat → Nat) : Nat → Nat → Nat
  | 0 => fun _ => 0
  | n + 1 =>
    match (run.tick n).tready with
    | none => run.known level n
    | some _ => shifted (level n) (run.known level n)

/-- The read pointer as an edge of the write clock samples it: as it was, or as it becomes. -/
def sampled (run : FifoRun wrFlowCtrl w) (n : Nat) : Nat :=
  match run.tick n with
  | .both _ _ skew =>
    if Gray.sample skew (Gray.encode (BitVec.ofNat w (run.gray n)))
        (Gray.encode (BitVec.ofNat w (run.read n))) =
      Gray.encode (BitVec.ofNat w (run.gray n)) then run.gray n else run.read n
  | _ => run.gray n

/-- The read pointer along the synchronizer of the write side. -/
def seen (run : FifoRun wrFlowCtrl w) : Nat → Nat → Nat
  | 0 => fun _ => 0
  | n + 1 =>
    match (run.tick n).axis with
    | none => run.seen n
    | some _ => shifted (run.sampled n) (run.seen n)

/-- What the read side keeps to, when the stream is in the RAM up to beat `written`. -/
structure Served (run : FifoRun wrFlowCtrl w) (beats : Nat → TxBeat) (level : Nat → Nat)
    (written n : Nat) : Prop where
  reading : (run.fifo n).rd.Reading beats (run.delivered n) (run.read n) (run.gray n) (run.begun n)
    (run.known level n)
  read_le : run.read n ≤ written
  seen_le : run.seen n 0 ≤ run.gray n
  falls : ∀ i, run.seen n (i + 1) ≤ run.seen n i
  known_le : ∀ i, run.reads n ≤ i → run.known level n i ≤ framesBefore beats written
  fresh : level n = run.known level n 0 ∨ level n = run.known level n 0 + 1 ∧
    (run.writes n = 1 ∧ (run.fifo n).wr.wrEof = true ∨ 2 ≤ run.writes n)

/-- What the write side keeps to at tick `n`: words that are not read stay, the level changes with
every frame that is stored, and the words of a frame are in the RAM one edge later. -/
structure Supplies (run : FifoRun wrFlowCtrl w) (beats : Nat → TxBeat) (level written : Nat → Nat)
    (n : Nat) : Prop where
  tog : (run.fifo n).wr.wrStoreFrameTog = (level n).bodd
  room : written n + 5 ≤ run.read n + 2 ^ w
  holds : Holds beats (run.fifo n).ram (run.read n) (written n)
  more : written n ≤ written (n + 1)
  still : (run.tick n).axis = none → level (n + 1) = level n ∧ written (n + 1) = written n
  stored : (run.tick n).axis ≠ none → level n ≤ framesBefore beats (written (n + 1))
  ends : level (n + 1) = level n ∨
    level (n + 1) = level n + 1 ∧ (run.fifo (n + 1)).wr.wrEof = true ∧
      (run.fifo n).wr.wrEof = false

section Steps

variable (run : FifoRun wrFlowCtrl w) {beats : Nat → TxBeat} {level : Nat → Nat} {n : Nat}

/-- The read side is moved by its own clock only. -/
theorem rd_next (n : Nat) :
    (run.fifo (n + 1)).rd =
      match (run.tick n).tready with
      | none => (run.fifo n).rd
      | some tready =>
        (run.fifo n).rd.clock tready (run.fifo n).wr.wrStoreFrameTog (run.fifo n).ram := by
  rw [run.clocked n]
  cases run.tick n <;> rfl

/-- And the write side by its own. -/
theorem wr_still (noEdge : (run.tick n).axis = none) :
    (run.fifo (n + 1)).wr = (run.fifo n).wr ∧ (run.fifo (n + 1)).ram = (run.fifo n).ram := by
  rw [run.clocked n]
  cases tick : run.tick n with
  | read tready => exact ⟨rfl, rfl⟩
  | write axis | both axis tready skew =>
    rw [tick] at noEdge
    cases noEdge

theorem delivered_mono {n m : Nat} (le : n ≤ m) : run.delivered n ≤ run.delivered m :=
  monotone_nat_of_le_succ (fun _ => Nat.le_add_right _ _) le

variable {run}

theorem served_zero (run : FifoRun wrFlowCtrl w) (beats : Nat → TxBeat) (level : Nat → Nat)
    (empty : level 0 = 0) : run.Served beats level 0 0 := by
  obtain ⟨before, _, start⟩ := run.reset
  have code : (0 : BitVec w) = Gray.encode (BitVec.ofNat w 0) := by simp [Gray.encode]
  have low (i : Nat) : (run.known level 0 i).bodd = false := Nat.bodd_zero
  refine ⟨?_, le_rfl, le_rfl, fun _ => le_rfl, fun _ _ => Nat.zero_le _, Or.inl empty⟩
  rw [start]
  exact {
    phase := ⟨rfl, rfl, Or.inl rfl, rfl⟩
    rdAddr := rfl
    rdAddrGrayReg := code
    gray_le := le_rfl
    read_le := Nat.zero_le _
    tog := (low 0).symm
    togD1 := (low 1).symm
    togD2 := (low 2).symm
    togD3 := (low 3).symm
    sync := (low 4).symm
    known_le := fun _ => le_rfl
    near := fun _ => Nat.zero_le _
    store := rfl
    begun_le := le_rfl
    rdFrames := rfl
    avail := fun avail => absurd avail Bool.false_ne_true
    starting := fun state => RdState.noConfusion state }

section Bounds

variable {written : Nat} (served : run.Served beats level written n)

include served

theorem Served.known_zero (i : Nat) : run.known level n i ≤ run.known level n 0 :=
  antitone_nat_of_succ_le served.reading.known_le (Nat.zero_le i)

theorem Served.known_level : run.known level n 0 ≤ level n := by
  rcases served.fresh with same | ⟨more, _⟩ <;> omega

theorem Served.level_le : level n ≤ run.known level n 0 + 1 := by
  rcases served.fresh with same | ⟨more, _⟩ <;> omega

theorem Served.seen_read : run.seen n 4 ≤ run.read n :=
  (antitone_nat_of_succ_le served.falls (Nat.zero_le 4)).trans
    (served.seen_le.trans served.reading.gray_le)

theorem Served.sampled_bounds :
    run.gray n ≤ run.sampled n ∧ run.sampled n ≤ run.gray (n + 1) := by
  have gray_le := served.reading.gray_le
  rw [sampled, gray]
  cases run.tick n with
  | write axis => exact ⟨le_rfl, le_rfl⟩
  | read tready => exact ⟨le_rfl, gray_le⟩
  | both axis tready skew =>
    simp only
    split
    · exact ⟨le_rfl, gray_le⟩
    · exact ⟨gray_le, le_rfl⟩

/-- What the write side samples is the code of one value of the pointer. -/
theorem Served.wr_next {axis : WrAxis} (offered : (run.tick n).axis = some axis) :
    (run.fifo (n + 1)).wr = (run.fifo n).wr.clock axis wrFlowCtrl
        (Gray.encode (BitVec.ofNat w (run.sampled n))) ∧
      (run.fifo (n + 1)).ram =
        if (run.fifo n).wr.wrEnableRam axis then
          Function.update (run.fifo n).ram (run.fifo n).wr.wrAddr (run.fifo n).wr.ramWord
        else (run.fifo n).ram := by
  have before := served.reading.rdAddrGrayReg
  rw [run.clocked n, sampled]
  cases tick : run.tick n with
  | read tready =>
    rw [tick] at offered
    cases offered
  | write axis' =>
    rw [tick] at offered
    cases offered
    refine ⟨?_, rfl⟩
    rw [← before]
    rfl
  | both axis' tready skew =>
    rw [tick] at offered
    cases offered
    refine ⟨?_, rfl⟩
    have gray_le := served.reading.gray_le
    have read_le := served.reading.read_le
    have moves : BitVec.ofNat w (run.read n) = BitVec.ofNat w (run.gray n) ∨
        BitVec.ofNat w (run.read n) = BitVec.ofNat w (run.gray n) + 1 := by
      rw [ofNat_succ]
      rcases Nat.lt_or_ge (run.gray n) (run.read n) with less | same
      · exact Or.inr (congrArg _ (by omega))
      · exact Or.inl (congrArg _ (by omega))
    have after : ((run.fifo n).readEdge tready).rd.rdAddrGrayReg =
        Gray.encode (BitVec.ofNat w (run.read n)) := by
      rw [← served.reading.rdAddr, ← binToGray_eq]
      rfl
    show (run.fifo n).wr.clock axis wrFlowCtrl (Gray.sample skew (run.fifo n).rd.rdAddrGrayReg
      ((run.fifo n).readEdge tready).rd.rdAddrGrayReg) = _
    rw [before, after]
    refine congrArg _ ?_
    simp only
    split_ifs with old
    · exact old
    · exact (Gray.sample_encode skew moves).resolve_left old

end Bounds

section Next

variable {written : Nat → Nat} (served : run.Served beats level (written n) n)

include served

/-- One tick, for the read side. -/
theorem Served.reading_next (supplies : run.Supplies beats level written n)
    (frames : FramedBeats beats) (positive : 0 < w) (paced : run.Paced) :
    (run.fifo (n + 1)).rd.Reading beats (run.delivered (n + 1)) (run.read (n + 1))
        (run.gray (n + 1)) (run.begun (n + 1)) (run.known level (n + 1)) ∧
      run.read (n + 1) ≤ written n := by
  have few := paced n
  have rd := run.rd_next n
  rw [delivered, read, gray, begun, known, AxiFifo.delivers]
  cases tready : (run.tick n).tready with
  | none =>
    rw [tready] at rd
    rw [rd, Option.getD_none, Bool.and_false]
    exact ⟨served.reading, served.read_le⟩
  | some ready =>
    rw [tready] at rd few
    have stored := served.known_le 4 (by omega)
    rw [rd, supplies.tog, Option.getD_some, Option.any_some, Option.isSome_some, Bool.true_and]
    constructor
    · exact served.reading.next frames stored positive served.read_le supplies.room supplies.holds
        served.known_level served.level_le ready
    · cases enabled : (run.fifo n).rd.rdEnable ready with
      | false => exact served.read_le
      | true => exact served.reading.fetched_lt frames stored enabled

theorem Served.next (supplies : run.Supplies beats level written n)
    (frames : FramedBeats beats) (positive : 0 < w) (paced : run.Paced) :
    run.Served beats level (written (n + 1)) (n + 1) := by
  obtain ⟨reading, fetched⟩ := served.reading_next supplies frames positive paced
  obtain ⟨later, sampled_le⟩ := served.sampled_bounds
  have seen_le := served.seen_le
  have zero := served.known_zero
  have known_level := served.known_level
  have few := paced n
  refine ⟨reading, fetched.trans supplies.more, ?_, ?_, ?_, ?_⟩
  · rw [seen]
    cases (run.tick n).axis with
    | none => exact seen_le.trans (later.trans sampled_le)
    | some axis => exact sampled_le
  · rw [seen]
    cases (run.tick n).axis with
    | none => exact served.falls
    | some axis => exact shifted_le (seen_le.trans later) served.falls
  · rw [known, reads]
    cases tick : run.tick n with
    | write axis =>
      have stored := supplies.stored (by rw [tick]; exact Option.some_ne_none axis)
      exact fun i _ => (zero i).trans (known_level.trans stored)
    | read tready =>
      have still := (supplies.still (by rw [tick]; rfl)).2
      rw [still]
      intro i after
      cases i with
      | zero => exact absurd after (Nat.not_succ_le_zero _)
      | succ i => exact served.known_le i (Nat.le_of_succ_le_succ after)
    | both axis tready skew =>
      have stored := supplies.stored (by rw [tick]; exact Option.some_ne_none axis)
      intro i _
      cases i with
      | zero => exact stored
      | succ i => exact (zero i).trans (known_level.trans stored)
  · have level_le := served.level_le
    rw [known, writes]
    cases tick : run.tick n with
    | write axis =>
      rw [tick] at few
      have once : run.writes n ≤ 1 := few
      show level (n + 1) = run.known level n 0 ∨ level (n + 1) = run.known level n 0 + 1 ∧
        (run.writes n + 1 = 1 ∧ _ ∨ 2 ≤ run.writes n + 1)
      rcases supplies.ends with same | ⟨more, eof, apart⟩
      · rcases served.fresh with old | ⟨new, one | two⟩
        · exact Or.inl (same.trans old)
        · exact Or.inr ⟨same.trans new, Or.inr (by omega)⟩
        · exact Or.inr ⟨same.trans new, Or.inr (by omega)⟩
      · rcases served.fresh with old | ⟨_, ⟨_, ended⟩ | two⟩
        · rcases Nat.eq_zero_or_pos (run.writes n) with noWrite | written
          · exact Or.inr ⟨by omega, Or.inl ⟨by omega, eof⟩⟩
          · exact Or.inr ⟨by omega, Or.inr (by omega)⟩
        · rw [apart] at ended
          cases ended
        · omega
    | read tready => exact Or.inl (supplies.still (by rw [tick]; rfl)).1
    | both axis tready skew =>
      rcases supplies.ends with same | ⟨more, eof, _⟩
      · exact Or.inl same
      · exact Or.inr ⟨more, Or.inl ⟨rfl, eof⟩⟩

end Next

end Steps

/-! ### What comes out -/

section Passing

variable {run : FifoRun wrFlowCtrl w} {beats : Nat → TxBeat} {level : Nat → Nat} {written n : Nat}
  (served : run.Served beats level written n)

include served

/-- What is on the read interface is the next beat, of a frame that has been stored. -/
theorem Served.beat_of_valid (valid : (run.fifo n).rd.rdAxisTvalid = true) :
    (run.fifo n).rd.beat = beats (run.delivered n) ∧
      framesBefore beats (run.delivered n) < level n := by
  have begun_le := served.reading.begun_le
  have zero := served.known_zero 5
  have known := served.known_level
  have phase := served.reading.phase
  rw [RdSide.Phase] at phase
  split at phase
  · rw [phase.2.2.2] at valid
    cases valid
  · rw [phase.2.2.2] at valid
    cases valid
  · rw [phase.2.2.2.1] at valid
    cases valid
  · exact ⟨phase.2.2.2.1, by omega⟩
  · exact ⟨phase.2.2.2.1, by omega⟩

/-- Within a frame there is always a beat on the read interface. -/
theorem Served.valid_of_inside (inside : ¬Starts beats (run.delivered n)) :
    (run.fifo n).rd.rdAxisTvalid = true := by
  have phase := served.reading.phase
  rw [RdSide.Phase] at phase
  split at phase
  · exact absurd phase.2.2.1 inside
  · exact absurd phase.2.2.1 inside
  · exact absurd phase.2.2.1 inside
  · exact phase.2.2.1
  · exact phase.2.2.1

/-- What is transferred is the next beat. -/
theorem Served.beat_of_delivers (delivers : (run.fifo n).delivers (run.tick n) = true) :
    (run.fifo n).rd.beat = beats (run.delivered n) ∧
      framesBefore beats (run.delivered n) < level n := by
  rw [AxiFifo.delivers, Bool.and_eq_true] at delivers
  exact served.beat_of_valid delivers.1

/-- Behind a beat that does not end its frame comes another one at once. -/
theorem Served.valid_of_last {last : TxBeat}
    (final : last ∈ ((List.range (run.delivered n)).map beats).getLast?)
    (inner : last.tlast = false) : (run.fifo n).rd.rdAxisTvalid = true := by
  refine served.valid_of_inside fun starts => ?_
  cases count : run.delivered n with
  | zero =>
    rw [count] at final
    cases final
  | succ passed =>
    rw [count] at final starts
    rw [List.range_succ, List.map_append, List.map_singleton, List.getLast?_concat] at final
    cases final
    have ends := starts.resolve_left (Nat.succ_ne_zero passed)
    rw [Nat.add_sub_cancel, inner] at ends
    cases ends

end Passing

/-- A beat stays on the read interface until it is transferred. -/
theorem valid_next (run : FifoRun wrFlowCtrl w) {n : Nat}
    (valid : (run.fifo n).rd.rdAxisTvalid = true)
    (waits : (run.fifo n).delivers (run.tick n) = false) :
    (run.fifo (n + 1)).rd.rdAxisTvalid = true := by
  rw [AxiFifo.delivers, valid, Bool.true_and] at waits
  rw [rd_next]
  cases tready : (run.tick n).tready with
  | none => exact valid
  | some ready =>
    rw [tready, Option.getD_some] at waits
    subst waits
    simp [RdSide.clock, valid]

/-! ### Arrival -/

/-- What the read side waits for: `rank` edges of its clock at most are left until a beat is on the
read interface. A frame that has been stored is known after seven. -/
inductive Waits (run : FifoRun wrFlowCtrl w) (level : Nat → Nat) : Nat → Nat → Prop
  | valid {n : Nat} : (run.fifo n).rd.rdAxisTvalid = true → Waits run level 0 n
  | init2 {n : Nat} : (run.fifo n).rd.rdState = .init2 → Waits run level 1 n
  | init1 {n : Nat} : (run.fifo n).rd.rdState = .init1 → Waits run level 2 n
  | avail {n : Nat} : (run.fifo n).rd.rdState = .idle → (run.fifo n).rd.rdAvail = true →
      Waits run level 3 n
  | known {n : Nat} (i : Nat) : i ≤ 6 → (run.fifo n).rd.rdState = .idle →
      run.begun n < shifted (level n) (run.known level n) i → Waits run level (10 - i) n

/-- Both sides keep to what the other relies on. -/
structure Keeps (run : FifoRun wrFlowCtrl w) (beats : Nat → TxBeat) (level written : Nat → Nat) :
    Prop where
  framed : FramedBeats beats
  positive : 0 < w
  paced : run.Paced
  served : ∀ n, run.Served beats level (written n) n
  supplies : ∀ n, run.Supplies beats level written n

section Arrival

variable {run : FifoRun wrFlowCtrl w} {beats : Nat → TxBeat} {level written : Nat → Nat}
  (keeps : run.Keeps beats level written)

include keeps

theorem Keeps.level_mono {n m : Nat} (le : n ≤ m) : level n ≤ level m := by
  refine monotone_nat_of_le_succ (fun n => ?_) le
  rcases (keeps.supplies n).ends with same | ⟨more, _⟩ <;> omega

/-- With a frame that is known and not begun the state machine has one to read. -/
theorem Keeps.rdFrames_ne {n : Nat} (few : run.reads n ≤ 3)
    (less : run.begun n < run.known level n 5) : (run.fifo n).rd.rdFrames ≠ 0 := by
  have served := keeps.served n
  have stored := served.known_le 4 (by omega)
  obtain ⟨_, counted⟩ := served.reading.few keeps.framed stored keeps.positive served.read_le
    (keeps.supplies n).room
  exact (served.reading.rdFrames_iff counted).mpr less

theorem Keeps.waits_stays {k n : Nat} (waits : run.Waits level k n)
    (noEdge : (run.tick n).tready = none) : run.Waits level k (n + 1) := by
  have rd := run.rd_next n
  rw [noEdge] at rd
  cases waits with
  | valid valid => exact .valid (rd ▸ valid)
  | init2 state => exact .init2 (rd ▸ state)
  | init1 state => exact .init1 (rd ▸ state)
  | avail state avail => exact .avail (rd ▸ state) (rd ▸ avail)
  | known i inside state less =>
    refine .known i inside (rd ▸ state) ?_
    rw [begun, FifoRun.known, noEdge]
    exact less.trans_le (shifted_mono (keeps.level_mono n.le_succ) _ _)

theorem Keeps.waits_falls {k n : Nat} (waits : run.Waits level (k + 1) n)
    (event : (run.tick n).tready ≠ none) : ∃ j ≤ k, run.Waits level j (n + 1) := by
  obtain ⟨tready, sampled⟩ := Option.ne_none_iff_exists'.mp event
  have few := keeps.paced n
  have rd := run.rd_next n
  rw [sampled] at rd few
  have state : (run.fifo (n + 1)).rd.rdState = (run.fifo n).rd.nextState tready := by
    rw [rd]
    rfl
  rw [RdSide.nextState] at state
  generalize rank : k + 1 = left at waits
  cases waits with
  | valid _ => omega
  | init2 init2 =>
    refine ⟨0, Nat.zero_le k, .valid ?_⟩
    rw [rd]
    simp only [RdSide.clock, init2, if_true]
  | init1 init1 =>
    rw [init1] at state
    exact ⟨1, by omega, .init2 state⟩
  | avail idle avail =>
    rw [idle] at state
    simp only [avail, if_true] at state
    exact ⟨2, by omega, .init1 state⟩
  | known i inside idle less =>
    rw [idle] at state
    cases avail : (run.fifo n).rd.rdAvail with
    | true =>
      simp only [avail, if_true] at state
      exact ⟨2, by omega, .init1 state⟩
    | false =>
      simp only [avail, Bool.false_eq_true, if_false] at state
      rcases Nat.eq_or_lt_of_le inside with rfl | inside
      · refine ⟨3, by omega, .avail state ?_⟩
        rw [rd]
        exact decide_eq_true (keeps.rdFrames_ne few less)
      · refine ⟨10 - (i + 1), by omega, .known (i + 1) inside state ?_⟩
        rw [begun, FifoRun.known, sampled, idle]
        exact less

/-- A frame that has been stored comes to the read interface. -/
theorem Keeps.exists_valid (ready : run.Ready) {n : Nat}
    (more : framesBefore beats (run.delivered n) < level n) :
    ∃ m, n ≤ m ∧ (run.fifo m).rd.rdAxisTvalid = true := by
  have now : ∃ rank, run.Waits level rank n := by
    have phase := (keeps.served n).reading.phase
    rw [RdSide.Phase] at phase
    cases state : (run.fifo n).rd.rdState with
    | idle =>
      rw [state] at phase
      refine ⟨_, .known 0 (Nat.zero_le 6) state ?_⟩
      rw [phase.2.1]
      exact more
    | init1 => exact ⟨_, .init1 state⟩
    | init2 => exact ⟨_, .init2 state⟩
    | inProgress | endOfFrame =>
      rw [state] at phase
      exact ⟨_, .valid phase.2.2.1⟩
  have often (n : Nat) : ∃ m, n ≤ m ∧ (run.tick m).tready ≠ none := by
    obtain ⟨m, later, tready⟩ := ready n
    exact ⟨m, later, by rw [tready]; exact Option.some_ne_none true⟩
  obtain ⟨rank, waits⟩ := now
  obtain ⟨m, later, ended⟩ := exists_counted_down
    (fun _ _ waits noEdge => keeps.waits_stays waits (not_ne_iff.mp noEdge))
    (fun _ _ waits event => keeps.waits_falls waits event) often waits
  refine ⟨m, later, ?_⟩
  generalize zero : 0 = rank at ended
  cases ended with
  | valid valid => exact valid
  | init2 | init1 | avail => cases zero
  | known i inside => omega

omit keeps in
/-- What is on the read interface is transferred. -/
theorem exists_transfer (ready : run.Ready) {n : Nat}
    (valid : (run.fifo n).rd.rdAxisTvalid = true) :
    ∃ m, n ≤ m ∧ run.delivered n < run.delivered m := by
  obtain ⟨m, later, ⟨valid, before⟩, tready⟩ := exists_waiting_event
    (fun m => (run.fifo m).rd.rdAxisTvalid = true ∧ run.delivered n ≤ run.delivered m)
    ⟨valid, le_rfl⟩
    (fun m waits noEdge => by
      obtain ⟨valid, before⟩ := waits
      refine ⟨run.valid_next valid ?_, before.trans (run.delivered_mono m.le_succ)⟩
      rw [AxiFifo.delivers, valid, Bool.true_and]
      cases tready : (run.tick m).tready with
      | none => rfl
      | some tready' =>
        rw [tready, Option.some_inj, Bool.not_eq_true] at noEdge
        exact noEdge)
    (ready n)
  refine ⟨m + 1, Nat.le_succ_of_le later, ?_⟩
  rw [delivered, AxiFifo.delivers, valid, tready]
  exact Nat.lt_succ_of_le before

/-- Every beat of a frame that has been stored is delivered. -/
theorem Keeps.exists_delivered (ready : run.Ready) {n p : Nat}
    (whole : framesBefore beats p < level n) : ∃ m, p < run.delivered m := by
  have progress (gap : Nat) (missing : ¬p < run.delivered (n + gap)) :
      ∃ later, p + 1 - run.delivered (n + later) < p + 1 - run.delivered (n + gap) := by
    have more : framesBefore beats (run.delivered (n + gap)) < level (n + gap) :=
      (framesBefore_mono (Nat.le_of_not_lt missing)).trans_lt
        (whole.trans_le (keeps.level_mono (Nat.le_add_right n gap)))
    obtain ⟨m, later, valid⟩ := keeps.exists_valid ready more
    obtain ⟨last, after, moved⟩ := exists_transfer ready valid
    have mono := run.delivered_mono later
    refine ⟨last - n, ?_⟩
    rw [show n + (last - n) = last by omega]
    omega
  obtain ⟨gap, reached⟩ := exists_goal (fun gap => p + 1 - run.delivered (n + gap)) progress 0
  exact ⟨n + gap, reached⟩

end Arrival

end FifoRun

end K71GbE.TenGigEth
