/-
This file is about the transmit FIFO over whole runs.

Each side keeps to what the other relies on, so a stream of frames passes. The
sender is held back only while a complete frame is in the FIFO, and the write side
hears that it has been read some edges after the read side has done so.
-/

import K71GbE.TenGigEth.FifoRun
import K71GbE.TenGigEth.TxFifoWrite

namespace K71GbE.TenGigEth

open Clocked

variable {w : Nat}

/-- A run of the transmit FIFO: `TLAST` is wired to `TUSER`. -/
structure TxFifoRun (w : Nat) extends FifoRun true w where
  tuser : ∀ n, ∀ axis ∈ (tick n).axis, axis.tuser = axis.tlast

/-- A beat on the write interface. -/
def TxBeat.offered (beat : TxBeat) : WrAxis :=
  ⟨beat.tdata, beat.tkeep, true, beat.tlast, beat.tlast⟩

namespace TxFifoRun

/-- The beats transferred into the FIFO before tick `n`. -/
def taken (run : TxFifoRun w) : Nat → Nat
  | 0 => 0
  | n + 1 => run.taken n + ((run.tick n).axis.any (run.fifo n).wr.accepts).toNat

/-- The words written to the RAM. -/
def written (run : TxFifoRun w) : Nat → Nat
  | 0 => 0
  | n + 1 => run.written n + ((run.tick n).axis.any (run.fifo n).wr.wrEnableRam).toNat

/-- Where the last frame ends that the write side knows to be complete. -/
def start (run : TxFifoRun w) : Nat → Nat
  | 0 => 0
  | n + 1 =>
    if (run.tick n).axis.isSome && (run.fifo n).wr.wrStoreFrameReg then run.written n
    else run.start n

/-- What is transferred into the FIFO is this stream. -/
def Sends (run : TxFifoRun w) (beats : Nat → TxBeat) : Prop :=
  ∀ n, ∀ axis ∈ (run.tick n).axis, (run.fifo n).wr.accepts axis = true →
    axis.beat = beats (run.taken n)

/-- The write clock never stops. -/
def Offers (run : TxFifoRun w) : Prop := ∀ n, ∃ m, n ≤ m ∧ (run.tick m).axis ≠ none

/-- The frames taken before tick `n`. -/
def level (run : TxFifoRun w) (beats : Nat → TxBeat) (n : Nat) : Nat :=
  framesBefore beats (run.taken n)

/-- The two sides before tick `n`. -/
structure Kept (run : TxFifoRun w) (beats : Nat → TxBeat) (n : Nat) : Prop where
  writing : (run.fifo n).wr.Writing beats (run.taken n) (run.written n) (run.start n) (run.seen n)
  holds : Holds beats (run.fifo n).ram (run.read n) (run.written n)
  served : run.Served beats (run.level beats) (run.written n) n

/-- The stream passes the FIFO. What is on the read interface is the next beat, of a frame that has
been taken as a whole; it stays until it is transferred, and the beats of a frame follow each other
without a gap. Every beat of a frame taken is delivered, and the sender is not held back for ever.
-/
structure Passes (run : TxFifoRun w) (beats : Nat → TxBeat) : Prop where
  inOrder : ∀ n, (run.fifo n).rd.rdAxisTvalid = true →
    (run.fifo n).rd.beat = beats (run.delivered n) ∧
      framesBefore beats (run.delivered n) < framesBefore beats (run.taken n)
  stays : ∀ n, (run.fifo n).rd.rdAxisTvalid = true →
    (run.fifo n).delivers (run.tick n) = false → (run.fifo (n + 1)).rd.rdAxisTvalid = true
  noGap : ∀ n, ¬Starts beats (run.delivered n) → (run.fifo n).rd.rdAxisTvalid = true
  arrives : run.Ready → ∀ n p, framesBefore beats p < framesBefore beats (run.taken n) →
    ∃ m, p < run.delivered m
  room : run.Ready → run.Offers → ∀ n,
    ∃ m, n ≤ m ∧ ∃ axis ∈ (run.tick m).axis, (run.fifo m).wr.wrFifoFull = false

theorem kept_zero {longest : Nat} (run : TxFifoRun w) (beats : Nat → TxBeat)
    (two : 2 * longest + 8 ≤ 2 ^ w) : run.Kept beats 0 := by
  have empty : run.level beats 0 = 0 := by
    rw [level, taken, framesBefore, Nat.count_zero]
  refine ⟨?_, fun p _ less => absurd less (Nat.not_lt_zero p),
    run.served_zero beats (run.level beats) empty⟩
  obtain ⟨before, eof, start⟩ := run.reset
  rw [start]
  exact {
    piped := Or.inl ⟨rfl, eof, rfl, Or.inl rfl⟩
    wrAddr := rfl
    wrAddrLast := rfl
    start_le := le_rfl
    stored := rfl
    ended := fun reg => absurd reg Bool.false_ne_true
    store := eof.symm
    tog := by
      rw [← level, empty]
      exact Nat.bodd_zero.symm
    synced := before.wr.synced_reset
    seen_le := fun _ => le_rfl
    room := by
      show 0 + 7 ≤ 0 + 2 ^ w
      omega
    counted := fun full => absurd full Bool.false_ne_true
    flagged := fun _ => Nat.zero_le _ }

section Steps

variable {run : TxFifoRun w} {longest : Nat} {beats : Nat → TxBeat} {n : Nat}
  (kept : run.Kept beats n) (frames : InFrames longest beats) (two : 2 * longest + 8 ≤ 2 ^ w)
  (sends : run.Sends beats)

include kept

theorem Kept.behind : run.seen n 4 ≤ run.written n :=
  kept.served.seen_read.trans kept.served.read_le

include frames sends

omit frames in
/-- The level changes with the end of a frame, which then waits to be written. -/
theorem Kept.level_next {axis : WrAxis} (offered : (run.tick n).axis = some axis) :
    run.level beats (n + 1) =
        run.level beats n + ((run.fifo n).wr.accepts axis && axis.tlast).toNat ∧
      (run.fifo (n + 1)).wr.wrEof = ((run.fifo n).wr.accepts axis && axis.tlast) := by
  constructor
  · rw [level, level, taken, offered, Option.any_some]
    cases accepted : (run.fifo n).wr.accepts axis with
    | false => rfl
    | true =>
      have last : axis.tlast = (beats (run.taken n)).tlast :=
        congrArg TxBeat.tlast (sends n axis offered accepted)
      rw [Bool.toNat_true, framesBefore_succ, last, Bool.true_and]
  · rw [(kept.served.wr_next offered).1]
    exact WrSide.wrEof_next (run.tuser n axis offered) _

/-- What the write side keeps to at every tick. -/
theorem Kept.supplies : run.Supplies beats (run.level beats) run.written n := by
  have room := kept.writing.room_five
  have behind := kept.served.seen_read
  refine ⟨kept.writing.tog, by omega, kept.holds, Nat.le_add_right _ _, fun noEdge => ?_,
    fun edge => ?_, ?_⟩
  · rw [level, level, taken, written, noEdge]
    exact ⟨rfl, rfl⟩
  · obtain ⟨axis, offered⟩ := Option.ne_none_iff_exists'.mp edge
    rw [written, offered, Option.any_some,
      kept.writing.framesBefore_written frames (sends n axis offered)]
    exact kept.writing.framesBefore_taken.le
  · cases offered : (run.tick n).axis with
    | none =>
      rw [level, level, taken, offered]
      exact Or.inl rfl
    | some axis =>
      obtain ⟨next, eof⟩ := kept.level_next sends offered
      rw [next, eof]
      cases ending : (run.fifo n).wr.accepts axis && axis.tlast with
      | false => exact Or.inl rfl
      | true =>
        obtain ⟨accepted, last⟩ := (Bool.and_eq_true _ _).mp ending
        have second : (beats (run.taken n)).tlast = true :=
          (congrArg TxBeat.tlast (sends n axis offered accepted)).symm.trans last
        refine Or.inr ⟨rfl, rfl, ?_⟩
        -- the beat behind the end of a frame is not an end
        rcases kept.writing.piped with ⟨_, low, _⟩ | ⟨follows, _, same, _⟩
        · exact low
        · refine Bool.eq_false_of_not_eq_true fun ended => ?_
          rw [follows, frames.spaced _ (same.symm.trans ended)] at second
          cases second

include two

theorem Kept.next (paced : run.Paced) : run.Kept beats (n + 1) := by
  have served := kept.served.next (kept.supplies frames sends) frames.toFramedBeats
    (positive_of_eight (by omega)) paced
  obtain ⟨_, fetched⟩ := kept.served.reading_next (kept.supplies frames sends)
    frames.toFramedBeats (positive_of_eight (by omega)) paced
  have later := kept.served.sampled_bounds.1
  have read_le : run.read n ≤ run.read (n + 1) := Nat.le_add_right _ _
  refine ⟨?_, ?_, served⟩
  · rw [taken, written, start, FifoRun.seen]
    cases offered : (run.tick n).axis with
    | none =>
      rw [(run.wr_still offered).1]
      exact kept.writing
    | some axis =>
      rw [(kept.served.wr_next offered).1]
      exact kept.writing.next frames two kept.behind (run.tuser n axis offered)
        (sends n axis offered) (kept.served.seen_le.trans later)
  · rw [written]
    cases offered : (run.tick n).axis with
    | none =>
      rw [(run.wr_still offered).2]
      exact kept.holds.mono read_le
    | some axis =>
      rw [(kept.served.wr_next offered).2]
      exact (kept.writing.holds frames (sends n axis offered) kept.served.seen_read
        kept.holds).mono read_le

end Steps

section Law

variable {run : TxFifoRun w} {longest : Nat} {beats : Nat → TxBeat}
  (frames : InFrames longest beats) (two : 2 * longest + 8 ≤ 2 ^ w) (paced : run.Paced)
  (sends : run.Sends beats)

include frames two paced sends

theorem kept (n : Nat) : run.Kept beats n := by
  induction n with
  | zero => exact kept_zero run beats two
  | succ n inductionHypothesis => exact inductionHypothesis.next frames two sends paced

theorem keeps : run.Keeps beats (run.level beats) run.written where
  framed := frames.toFramedBeats
  positive := positive_of_eight (by omega)
  paced := paced
  served n := (kept frames two paced sends n).served
  supplies n := (kept frames two paced sends n).supplies frames sends

end Law

/-! ### Room for the sender -/

/-- The write side knows that the read side has come to beat `p`, but for `rank` edges of its
clock. -/
def Hears (run : TxFifoRun w) (p rank n : Nat) : Prop :=
  rank ≤ 5 ∧ p ≤ shifted (run.gray n) (run.seen n) (5 - rank)

/-- The beat behind the last end of a frame. -/
theorem exists_starts (beats : Nat → TxBeat) (p : Nat) :
    ∃ q ≤ p, Starts beats q ∧ framesBefore beats q = framesBefore beats p := by
  induction p with
  | zero => exact ⟨0, le_rfl, Or.inl rfl, rfl⟩
  | succ p inductionHypothesis =>
    cases last : (beats p).tlast with
    | true => exact ⟨p + 1, le_rfl, Or.inr last, rfl⟩
    | false =>
      obtain ⟨q, le, starts, same⟩ := inductionHypothesis
      refine ⟨q, Nat.le_succ_of_le le, starts, ?_⟩
      rw [framesBefore_succ, last, Bool.toNat_false, Nat.add_zero, same]

/-- Less than a frame has been taken behind the last complete one. -/
theorem lt_of_starts {longest : Nat} {beats : Nat → TxBeat} (frames : InFrames longest beats)
    {p q : Nat} (same : framesBefore beats q = framesBefore beats p) : p < q + longest := by
  obtain ⟨i, after, before, last⟩ := frames.short q
  by_contra far
  have counted : framesBefore beats (i + 1) ≤ framesBefore beats p := framesBefore_mono (by omega)
  have mono : framesBefore beats q ≤ framesBefore beats i := framesBefore_mono after
  rw [framesBefore_succ, last, Bool.toNat_true] at counted
  omega

section Room

variable {run : TxFifoRun w} {longest : Nat} {beats : Nat → TxBeat} {n : Nat}
  (kept : run.Kept beats n)

include kept

/-- What the write side has heard stays heard. -/
theorem Hears.stays {p rank : Nat} (hears : run.Hears p rank n)
    (noEdge : (run.tick n).axis = none) : run.Hears p rank (n + 1) := by
  refine ⟨hears.1, ?_⟩
  obtain ⟨later, sampled_le⟩ := kept.served.sampled_bounds
  rw [FifoRun.seen, noEdge]
  exact hears.2.trans (shifted_mono (later.trans sampled_le) _ _)

theorem Hears.falls {p rank : Nat} (hears : run.Hears p (rank + 1) n)
    (edge : (run.tick n).axis ≠ none) : run.Hears p rank (n + 1) := by
  obtain ⟨inside, heard⟩ := hears
  obtain ⟨axis, offered⟩ := Option.ne_none_iff_exists'.mp edge
  have later := kept.served.sampled_bounds.1
  refine ⟨by omega, ?_⟩
  rw [FifoRun.seen, offered, show 5 - rank = 5 - (rank + 1) + 1 by omega]
  exact heard.trans (shifted_mono later _ _)

/-- An edge of the read clock puts out where the read side is. -/
theorem Kept.hears {p : Nat} (delivered : p ≤ run.delivered n)
    (edge : (run.tick n).tready ≠ none) : run.Hears p 5 (n + 1) := by
  refine ⟨le_rfl, ?_⟩
  show p ≤ run.gray (n + 1)
  rw [FifoRun.gray, if_pos (Option.isSome_iff_ne_none.mpr edge)]
  exact delivered.trans kept.served.reading.delivered_le.1

/-- The FIFO is not full once the write side has heard that all complete frames are read. -/
theorem Hears.room (two : 2 * longest + 8 ≤ 2 ^ w) {p : Nat} (hears : run.Hears p 0 n)
    {axis : WrAxis} (offered : (run.tick n).axis = some axis)
    (near : run.taken n < p + longest) : (run.fifo (n + 1)).wr.wrFifoFull = false := by
  have arrived : p ≤ run.seen n 4 := hears.2
  have written : run.written n ≤ run.taken n := by
    rcases kept.writing.piped with ⟨same, _⟩ | ⟨same, _⟩ <;> omega
  rw [(kept.served.wr_next offered).1, kept.writing.full_next two kept.behind]
  exact decide_eq_false (by omega)

end Room

section Law

variable {run : TxFifoRun w} {longest : Nat} {beats : Nat → TxBeat}
  (frames : InFrames longest beats) (two : 2 * longest + 8 ≤ 2 ^ w) (paced : run.Paced)
  (sends : run.Sends beats)

include frames two paced sends

/-- The read side comes to the end of the complete frames. -/
theorem exists_reached (ready : run.Ready) {n q : Nat} (starts : Starts beats q)
    (same : framesBefore beats q = framesBefore beats (run.taken n)) :
    ∃ m, q ≤ run.delivered m := by
  rcases Nat.eq_zero_or_pos q with rfl | positive
  · exact ⟨0, Nat.zero_le _⟩
  · have last : (beats (q - 1)).tlast = true := starts.resolve_left positive.ne'
    have whole : framesBefore beats (q - 1) < framesBefore beats (run.taken n) := by
      have step : framesBefore beats (q - 1 + 1) = framesBefore beats (q - 1) + 1 := by
        rw [framesBefore_succ, last, Bool.toNat_true]
      rw [Nat.sub_add_cancel positive] at step
      omega
    obtain ⟨m, passed⟩ := (keeps frames two paced sends).exists_delivered ready whole
    exact ⟨m, by omega⟩

/-- The sender is not held back for ever. -/
theorem exists_room (ready : run.Ready) (offers : run.Offers) (n : Nat) :
    ∃ m, n ≤ m ∧ ∃ axis ∈ (run.tick m).axis, (run.fifo m).wr.wrFifoFull = false := by
  have kept := kept frames two paced sends
  by_contra noRoom
  have held {m : Nat} (later : n ≤ m) {axis : WrAxis} (offered : (run.tick m).axis = some axis) :
      (run.fifo m).wr.wrFifoFull = true :=
    Bool.eq_true_of_not_eq_false fun free => noRoom ⟨m, later, axis, offered, free⟩
  -- so nothing is taken, and the read side comes to the end of what is there
  have same {m : Nat} (later : n ≤ m) : run.taken m = run.taken n := by
    induction m, later using Nat.le_induction with
    | base => rfl
    | succ m later inductionHypothesis =>
      rw [taken]
      cases offered : (run.tick m).axis with
      | none => exact inductionHypothesis
      | some axis =>
        rw [Option.any_some, WrSide.accepts, held later offered, Bool.not_true, Bool.and_false]
        exact inductionHypothesis
  obtain ⟨q, _, starts, ends⟩ := exists_starts beats (run.taken n)
  obtain ⟨first, read⟩ := exists_reached frames two paced sends ready starts ends
  obtain ⟨edge, late, tready⟩ := ready (max n first)
  have put : run.Hears q 5 (edge + 1) := by
    refine (kept edge).hears (read.trans (run.delivered_mono ((le_max_right _ _).trans late))) ?_
    rw [tready]
    exact Option.some_ne_none true
  obtain ⟨heard, after, hears⟩ := exists_counted_down
    (fun _ n hears noEdge => hears.stays (kept n) (not_ne_iff.mp noEdge))
    (fun rank n hears edge => ⟨rank, le_rfl, hears.falls (kept n) edge⟩) offers put
  obtain ⟨write, following, hears, offered⟩ := exists_waiting_event (run.Hears q 0) hears
    (fun n hears noEdge => hears.stays (kept n) (not_ne_iff.mp noEdge)) (offers heard)
  obtain ⟨axis, offered⟩ := Option.ne_none_iff_exists'.mp offered
  have later : n ≤ write := by omega
  have free : (run.fifo (write + 1)).wr.wrFifoFull = false := by
    refine hears.room (kept write) two offered ?_
    rw [same later]
    exact lt_of_starts frames ends
  obtain ⟨last, behind, free, offered⟩ := exists_waiting_event
    (fun m => (run.fifo m).wr.wrFifoFull = false) free
    (fun _ free noEdge => (run.wr_still (not_ne_iff.mp noEdge)).1.symm ▸ free) (offers (write + 1))
  obtain ⟨axis, offered⟩ := Option.ne_none_iff_exists'.mp offered
  have full := held (later.trans (Nat.le_of_succ_le behind)) offered
  rw [free] at full
  cases full

end Law

/-! ### The law -/

/-- If two frames and eight words fit into the RAM, a stream of frames passes the FIFO whatever the
phases of the clocks: no beat is lost, doubled or changed, and no frame begins to come out before it
is complete. -/
theorem stream_passes {longest : Nat} {beats : Nat → TxBeat} (run : TxFifoRun w)
    (frames : InFrames longest beats) (two : 2 * longest + 8 ≤ 2 ^ w) (paced : run.Paced)
    (sends : run.Sends beats) : run.Passes beats := by
  have keeps := keeps frames two paced sends
  refine ⟨fun n valid => (keeps.served n).beat_of_valid valid, fun n => run.valid_next,
    fun n inside => (keeps.served n).valid_of_inside inside,
    fun ready n p whole => keeps.exists_delivered ready whole, fun ready offers n => ?_⟩
  exact exists_room frames two paced sends ready offers n

/-- A sender that puts a stream on the write interface, with a receiver that is always ready. -/
def driven (w : Nat) (beats : Nat → TxBeat) : Nat → AxiFifo w × Nat
  | 0 => (AxiFifo.configured.reset, 0)
  | n + 1 =>
    let (fifo, taken) := driven w beats n
    let tick : FifoTick w := .both (beats taken).offered true 0
    (fifo.step true tick, taken + (tick.axis.any fifo.wr.accepts).toNat)

def drivenRun (w : Nat) (beats : Nat → TxBeat) : TxFifoRun w where
  fifo n := (driven w beats n).1
  tick n := .both (beats (driven w beats n).2).offered true 0
  reset := ⟨AxiFifo.configured, rfl, rfl⟩
  clocked _ := rfl
  tuser n axis := by
    rintro ⟨⟩
    rfl

theorem taken_drivenRun (beats : Nat → TxBeat) (n : Nat) :
    (drivenRun w beats).taken n = (driven w beats n).2 := by
  induction n with
  | zero => rfl
  | succ n inductionHypothesis =>
    rw [taken, inductionHypothesis]
    rfl

/-- Frames of two beats. -/
def pairs (i : Nat) : TxBeat := ⟨BitVec.ofNat 64 i, 0b11111111, i.bodd⟩

theorem inFrames_pairs : InFrames 2 pairs where
  first := Nat.bodd_zero
  spaced i last := by
    have odd : i.bodd = true := last
    show (i + 1).bodd = false
    rw [Nat.bodd_succ, odd]
    rfl
  short p := by
    cases odd : p.bodd with
    | true => exact ⟨p, le_rfl, by omega, odd⟩
    | false =>
      refine ⟨p + 1, by omega, by omega, ?_⟩
      show (p + 1).bodd = true
      rw [Nat.bodd_succ, odd]
      rfl
  full _ _ := rfl
  lowest _ := ⟨0b111, rfl⟩

theorem pairs_pass : (drivenRun 4 pairs).Passes pairs := by
  refine stream_passes _ inFrames_pairs (by decide) (fun n => ?_) (fun n axis offered _ => ?_)
  · show (drivenRun 4 pairs).reads n ≤ 3
    cases n with
    | zero => exact Nat.zero_le 3
    | succ n => exact Nat.zero_le 3
  · rw [taken_drivenRun]
    cases offered
    rfl

end TxFifoRun

end K71GbE.TenGigEth
