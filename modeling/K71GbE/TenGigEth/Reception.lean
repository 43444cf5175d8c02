/-
This file is about the receive FIFO with the receive parser behind it.

The parser works on the clock that the FIFO is read with. The FIFO leaves a clock
without a beat between two frames and shows `TLAST` with a beat only, and this is
what the parser relies on: every good frame that the MAC delivers raises its command
once, whatever the phases of the clocks.
-/

import K71GbE.TenGigEth.RxFifo
import K71GbE.TenGigEth.RxFrames

namespace K71GbE.TenGigEth

open Clocked

variable {w : Nat}

/-! ### The read interface -/

namespace RdSide

/-- `TVALID` and `TLAST` in the states of the read side. -/
def Shown (side : RdSide w) : Prop :=
  match side.rdState with
  | .inProgress => side.rdAxisTvalid = true ∧ side.rdAxisTlast = false
  | .endOfFrame => side.rdAxisTvalid = true ∧ side.rdAxisTlast = true
  | _ => side.rdAxisTvalid = false ∧ side.rdAxisTlast = false

theorem shown_reset : (reset : RdSide w).Shown := ⟨rfl, rfl⟩

section Step

variable {side : RdSide w} (shown : side.Shown) (tready tog : Bool) (ram : BitVec w → RamWord)

include shown

theorem Shown.next : (side.clock tready tog ram).Shown := by
  have state : (side.clock tready tog ram).rdState = side.nextState tready := rfl
  rw [Shown] at shown
  rw [Shown, state, nextState]
  cases now : side.rdState with
  | idle =>
    rw [now] at shown
    cases side.rdAvail <;> simp [clock, takes, now, shown.1, shown.2]
  | init1 =>
    rw [now] at shown
    simp [clock, takes, now, shown.1, shown.2]
  | init2 =>
    simp [clock, takes, now]
  | inProgress =>
    rw [now] at shown
    cases tready <;> cases last : side.eof <;> simp [clock, takes, now, last, shown.1, shown.2]
  | endOfFrame =>
    rw [now] at shown
    cases tready <;> cases side.rdAvail <;> simp [clock, takes, now, shown.1, shown.2]

theorem Shown.valid_of_last (last : side.rdAxisTlast = true) : side.rdAxisTvalid = true := by
  rw [Shown] at shown
  split at shown
  · exact shown.1
  · exact shown.1
  · rw [shown.2] at last
    cases last

/-- Behind the last beat of a frame there is none. -/
theorem Shown.gap (last : side.rdAxisTlast = true) :
    (side.clock true tog ram).rdAxisTvalid = false := by
  rw [Shown] at shown
  split at shown
  · rw [shown.2] at last
    cases last
  · rename_i state
    simp [clock, state]
  · rw [shown.2] at last
    cases last

end Step

end RdSide

/-! ### The parser on the read clock -/

/-- The beat as the parser sees it, without `TKEEP`. -/
def TxBeat.seen (beat : TxBeat) : Beat := ⟨beat.tdata, beat.tlast⟩

/-- What the parser meets at an edge of the read clock: `TREADY` is `NOT cmd_fifo_full`. -/
def RdSide.rxInput (side : RdSide w) (tready : Bool) : RxInput :=
  ⟨side.rdAxisTdata, side.rdAxisTvalid, side.rdAxisTlast, !tready⟩

/-- The command FIFO is not full while the parser reads the head of a frame or its end, nor when a
command is to be written. -/
structure Unhindered (config : Config) (rx : RxParser) (input : RxInput) : Prop where
  held : input.tvalid = true → input.cmdFifoFull = true →
    rx.parserState = .s6 ∧ input.tlast = false
  room : rx.cmdState = .s1 → (command config rx.fields).isSome → input.cmdFifoFull = false

/-- Where the parser needs a clock without a beat, the FIFO shows none. -/
def Apart (rx : RxParser) (side : RdSide w) : Prop :=
  rx.tlastI = true ∨ rx.parserState = .s0 ∧ rx.tvalidPrev = true → side.rdAxisTvalid = false

section Edge

variable {config : Config} {rx : RxParser} {side : RdSide w} {tready : Bool}
  (shown : side.Shown) (apart : Apart rx side)
  (unhindered : Unhindered config rx (side.rxInput tready))

include shown apart unhindered

theorem orderly_rxInput : Orderly config rx (side.rxInput tready) :=
  ⟨apart, shown.valid_of_last, unhindered.held, unhindered.room⟩

theorem apart_next (tog : Bool) (ram : BitVec w → RamWord) :
    Apart (rx.clock config (side.rxInput tready)) (side.clock tready tog ram) := by
  have orderly := orderly_rxInput shown apart unhindered
  have after_last (last : side.rdAxisTlast = true) :
      (side.clock tready tog ram).rdAxisTvalid = false := by
    cases tready with
    | true => exact shown.gap tog ram last
    | false =>
      have held := (orderly.held (shown.valid_of_last last) rfl).2
      rw [RdSide.rxInput, last] at held
      cases held
  rintro (last | ⟨state, valid⟩)
  · exact after_last last
  · -- a beat has left the parser waiting for a frame, so it was the last one
    have beat : side.rdAxisTvalid = true := valid
    refine after_last (Bool.eq_true_of_not_eq_false fun inner => ?_)
    have moved : ParserState.s0 =
        (run takeBeat (rx.parserState, rx.fields) (side.rxInput tready).transferred).1 :=
      state.symm.trans (congrArg Prod.fst (RxParser.clock_takeBeat orderly))
    have transferred : (side.rxInput tready).transferred =
        if tready then [⟨side.rdAxisTdata, false⟩] else [] := by
      rw [RxInput.transferred, RdSide.rxInput, RxInput.tready, beat, inner, Bool.not_not,
        Bool.true_and]
    rw [transferred] at moved
    cases tready with
    | true => exact takeBeat_ne_s0 moved.symm
    | false =>
      have reads := (orderly.held beat rfl).1
      rw [if_neg Bool.false_ne_true, run_nil, reads] at moved
      cases moved

end Edge

/-- The receive FIFO with the parser behind it. The reset of the FIFO may last longer, and the FIFO
shows nothing then. -/
structure Receiver (w : Nat) where
  store : RxFifoRun w
  rx : RxParser
  before : List RxInput
  silent : ∀ input ∈ before, input.tvalid = false ∧ input.tlast = false

namespace Receiver

/-- The edges that the parser has met before tick `n`. -/
def inputs (receiver : Receiver w) : Nat → List RxInput
  | 0 => receiver.before
  | n + 1 =>
    receiver.inputs n ++
      match (receiver.store.tick n).tready with
      | none => []
      | some tready => [(receiver.store.fifo n).rd.rxInput tready]

variable (config : Config) (receiver : Receiver w)

/-- The parser before tick `n`. -/
def parser (n : Nat) : RxParser :=
  run (RxParser.clock config) receiver.rx.reset (receiver.inputs n)

/-- The commands that are raised before tick `n`. -/
def raised (n : Nat) : List (BitVec 128) :=
  log (RxParser.clock config) (RxParser.pushed config) receiver.rx.reset (receiver.inputs n)

/-- The command FIFO never hinders the parser. -/
def Free : Prop :=
  ∀ n, Along (RxParser.clock config) (Unhindered config) receiver.rx.reset (receiver.inputs n)

/-! ### The stream is orderly -/

theorem shown (n : Nat) : (receiver.store.fifo n).rd.Shown := by
  induction n with
  | zero =>
    obtain ⟨before, _, start⟩ := receiver.store.reset
    rw [start]
    exact RdSide.shown_reset
  | succ n inductionHypothesis =>
    rw [receiver.store.rd_next]
    cases (receiver.store.tick n).tready with
    | none => exact inductionHypothesis
    | some tready => exact inductionHypothesis.next tready _ _

variable {config receiver}

section Orderly

variable (free : receiver.Free config)

include free

theorem orderly (n : Nat) :
    Along (RxParser.clock config) (Orderly config) receiver.rx.reset (receiver.inputs n) ∧
      Apart (receiver.parser config n) (receiver.store.fifo n).rd := by
  induction n with
  | zero =>
    have silent : Along (RxParser.clock config)
        (fun _ input => input.tvalid = false ∧ input.tlast = false) receiver.rx.reset
        receiver.before := along_of_forall fun _ => receiver.silent
    refine ⟨(silent.and (free 0)).mono fun rx input both => ?_, fun _ => ?_⟩
    · obtain ⟨⟨valid, last⟩, unhindered⟩ := both
      exact ⟨fun _ => valid, fun ended => absurd ended (by rw [last]; decide), unhindered.held,
        unhindered.room⟩
    · obtain ⟨before, _, start⟩ := receiver.store.reset
      rw [start]
      rfl
  | succ n inductionHypothesis =>
    obtain ⟨along, apart⟩ := inductionHypothesis
    have now := free (n + 1)
    rw [inputs] at now ⊢
    rw [parser, inputs, receiver.store.rd_next]
    cases edge : (receiver.store.tick n).tready with
    | none =>
      rw [List.append_nil]
      exact ⟨along, apart⟩
    | some tready =>
      rw [edge] at now
      simp only [along_concat, run_concat] at now ⊢
      exact ⟨⟨along, orderly_rxInput (receiver.shown n) apart now.2⟩,
        apart_next (receiver.shown n) apart now.2 _ _⟩

theorem watching (n : Nat) : (receiver.parser config n).Watching :=
  (RxParser.beatRefinement config).run_holds (Or.inl rfl) (orderly free n).1

end Orderly

/-- The beats that the parser takes are those transferred out of the FIFO. -/
theorem transferred_inputs (n : Nat) :
    (receiver.inputs n).flatMap RxInput.transferred =
      (receiver.store.received n).map TxBeat.seen := by
  induction n with
  | zero =>
    refine List.flatMap_eq_nil_iff.mpr fun input member => ?_
    rw [RxInput.transferred, (receiver.silent input member).1]
    rfl
  | succ n inductionHypothesis =>
    rw [inputs, RxFifoRun.received, List.flatMap_append, List.map_append, inductionHypothesis,
      AxiFifo.delivers]
    cases (receiver.store.tick n).tready with
    | none => rw [Option.getD_none, Bool.and_false]; rfl
    | some tready =>
      rw [List.flatMap_singleton, RxInput.transferred, RdSide.rxInput, RxInput.tready,
        Bool.not_not, Option.getD_some]
      cases (receiver.store.fifo n).rd.rdAxisTvalid && tready <;> rfl

/-- What is raised, and what the parser still has to raise, is told by the beats received. -/
theorem raised_pending (free : receiver.Free config) (n : Nat) :
    receiver.raised config n ++ (receiver.parser config n).pending config =
      log takeBeat (beatCommand config) (.s0, .zero)
        ((receiver.store.received n).map TxBeat.seen) := by
  rw [← transferred_inputs]
  exact RxParser.log_pushed receiver.rx (orderly free n).1

end Receiver

/-! ### Pending commands -/

/-- What is pending is raised within two clocks. -/
theorem RxParser.pending_prefix {config : Config} {rx : RxParser} {input input' : RxInput}
    (watching : rx.Watching) (orderly : Orderly config rx input)
    (orderly' : Orderly config (rx.clock config input) input') :
    rx.pending config <+:
      rx.pushed config input ++ (rx.clock config input).pushed config input' := by
  have first := RxParser.pushed_pending watching orderly
  have written {rx : RxParser} {input : RxInput} (orderly : Orderly config rx input)
      (looks : rx.cmdState = .s1) : rx.pushed config input = rx.pending config := by
    rw [RxParser.pushed_eq, RxParser.pending, if_pos (Or.inl looks)]
    cases value : command config rx.fields with
    | none => simp
    | some din => rw [if_pos ⟨looks, orderly.room looks (by rw [value]; rfl)⟩]
  rcases watching with waits | ⟨looks, _⟩
  · cases last : rx.tlastI with
    | false =>
      rw [RxParser.pending, waits, last, if_neg (by decide)]
      exact List.nil_prefix
    | true =>
      have next : (rx.clock config input).cmdState = .s1 := by
        rw [RxParser.clock_cmdState, if_pos ⟨waits, last⟩]
      have notPushed : rx.pushed config input = [] := by
        rw [RxParser.pushed_eq, waits, if_neg fun both => by cases both.1]
      rw [notPushed, List.nil_append] at first ⊢
      rw [written orderly' next, first]
      exact List.prefix_append _ _
  · rw [written orderly looks]
    exact List.prefix_append _ _

namespace Receiver

variable {config : Config} {receiver : Receiver w}

/-- The read clock comes again. -/
theorem exists_edge (ready : receiver.store.Ready) (n : Nat) :
    ∃ m input, receiver.inputs m = receiver.inputs n ++ [input] := by
  have comes : ∃ m, n ≤ m ∧ (receiver.store.tick m).tready ≠ none := by
    obtain ⟨m, later, tready⟩ := ready n
    exact ⟨m, later, by rw [tready]; exact Option.some_ne_none true⟩
  obtain ⟨m, _, same, edge⟩ := exists_waiting_event
    (fun m => receiver.inputs m = receiver.inputs n) rfl
    (fun m same quiet => by rw [inputs, same, not_ne_iff.mp quiet, List.append_nil]) comes
  obtain ⟨tready, sampled⟩ := Option.ne_none_iff_exists'.mp edge
  exact ⟨m + 1, (receiver.store.fifo m).rd.rxInput tready, by rw [inputs, sampled, same]⟩

/-- Every command of the beats received is raised. -/
theorem exists_raised (free : receiver.Free config) (ready : receiver.store.Ready) (n : Nat) :
    ∃ m, log takeBeat (beatCommand config) (.s0, .zero)
      ((receiver.store.received n).map TxBeat.seen) <+: receiver.raised config m := by
  obtain ⟨middle, input, first⟩ := exists_edge ready n
  obtain ⟨m, input', second⟩ := exists_edge ready middle
  have along := (orderly free m).1
  rw [second, first, along_concat, along_concat, run_concat] at along
  have flushed := RxParser.pending_prefix (watching free n) along.1.2 along.2
  refine ⟨m, ?_⟩
  rw [← raised_pending free n, raised, raised, second, first, log_concat, log_concat, run_concat,
    List.append_assoc]
  exact (List.prefix_append_right_inj _).mpr flushed

end Receiver

/-! ### Good frames -/

theorem beats_concat (words : List (BitVec 64)) (last : BitVec 64) :
    beats (words ++ [last]) = words.map (⟨·, false⟩) ++ [⟨last, true⟩] := by
  induction words with
  | nil => rfl
  | cons word rest inductionHypothesis =>
    obtain ⟨next, others, split⟩ :=
      List.exists_cons_of_ne_nil
        (List.append_ne_nil_of_right_ne_nil rest (List.cons_ne_nil last []))
    rw [List.cons_append, split, beats, ← split, inductionHypothesis]
    rfl

/-- The beats of a frame with the last one marked are those of its words. -/
theorem map_ended {words : List TxBeat} (inner : ∀ beat ∈ words, beat.tlast = false) :
    (ended words).map TxBeat.seen = beats (words.map TxBeat.tdata) := by
  rcases List.eq_nil_or_concat words with rfl | ⟨before, last, rfl⟩
  · rfl
  · rw [List.concat_eq_append] at inner ⊢
    rw [ended_concat, List.map_append, List.map_append, List.map_singleton, List.map_singleton,
      beats_concat, List.map_map]
    refine congrArg (· ++ _) (List.map_congr_left fun beat member => ?_)
    show TxBeat.seen beat = ⟨beat.tdata, false⟩
    rw [TxBeat.seen, inner beat (List.mem_append_left _ member)]

namespace RxFifoRun

/-- The words of the good frames. -/
def frames (run : RxFifoRun w) : Nat → List (List (BitVec 64))
  | 0 => []
  | n + 1 =>
    run.frames n ++
      match (run.tick n).axis with
      | none => []
      | some axis =>
        if axis.tuser then [((run.arrived n).frame ++ axis.word).map TxBeat.tdata] else []

theorem frames_mono (run : RxFifoRun w) {n m : Nat} (le : n ≤ m) :
    run.frames n <+: run.frames m := by
  induction m, le using Nat.le_induction with
  | base => exact List.prefix_refl _
  | succ m le inductionHypothesis => exact inductionHypothesis.trans (List.prefix_append _ _)

theorem enough_frames {run : RxFifoRun w} {least : Nat}
    (enough : ∀ n, ∀ axis ∈ (run.tick n).axis, axis.tuser = true →
      least ≤ ((run.arrived n).frame ++ axis.word).length) (n : Nat) :
    ∀ frame ∈ run.frames n, least ≤ frame.length := by
  induction n with
  | zero => exact fun frame member => absurd member List.not_mem_nil
  | succ n inductionHypothesis =>
    intro frame member
    rw [frames] at member
    rcases List.mem_append.mp member with old | new
    · exact inductionHypothesis frame old
    · cases offered : (run.tick n).axis with
      | none =>
        rw [offered] at new
        exact absurd new List.not_mem_nil
      | some axis =>
        rw [offered] at new
        simp only at new
        split at new
        · rename_i user
          rw [List.mem_singleton.mp new, List.length_map]
          exact enough n axis offered user
        · exact absurd new List.not_mem_nil

theorem map_good {run : RxFifoRun w} (receives : run.Receives) (n : Nat) :
    (run.good n).map TxBeat.seen = (run.frames n).flatMap beats := by
  induction n with
  | zero => rfl
  | succ n inductionHypothesis =>
    rw [good, frames, List.map_append, List.flatMap_append, inductionHypothesis]
    refine congrArg (_ ++ ·) ?_
    cases offered : (run.tick n).axis with
    | none => rfl
    | some axis =>
      cases user : axis.tuser with
      | false => simp [user]
      | true =>
        simp only [user, if_true, List.flatMap_singleton]
        refine map_ended fun beat member => ?_
        refine ((formed receives n).inner_word (receives n axis offered) ?_).1
        rw [Arrived.waiting, List.append_assoc]
        exact List.mem_append_right _ member

end RxFifoRun

namespace Receiver

variable {config : Config} {receiver : Receiver w}

/-- The commands that are raised are those of the accepted good frames: no other one and none twice,
in the order of the frames, and all of them if the command FIFO has room again and again. -/
structure Raises (config : Config) (receiver : Receiver w) : Prop where
  onlyThose : ∀ n, ∃ frames, frames <+: (receiver.store.frames n).filter (Accepted config ·) ∧
    List.Forall₂ (Carries config) (receiver.raised config n) frames
  all : receiver.store.Ready → ∀ n, ∃ m frames,
    (receiver.store.frames n).filter (Accepted config ·) <+: frames ∧
      List.Forall₂ (Carries config) (receiver.raised config m) frames

/-- A beginning of the commands carries a beginning of the frames. -/
theorem carries_prefix {commands more : List (BitVec 128)} {frames : List (List (BitVec 64))}
    (carried : List.Forall₂ (Carries config) more frames) (early : commands <+: more) :
    ∃ first, first <+: frames ∧ List.Forall₂ (Carries config) commands first := by
  rw [List.prefix_iff_eq_take] at early
  rw [early]
  exact ⟨_, List.take_prefix _ _, List.forall₂_take _ carried⟩

/-- Behind the receive FIFO the parser raises the command of every good frame that is accepted, if
no beat is left in front of a good frame and it has at least seven. -/
theorem raises_commands (config : Config) (receiver : Receiver w) (eight : 8 ≤ 2 ^ w)
    (paced : receiver.store.Paced) (receives : receiver.store.Receives)
    (never : receiver.store.NeverFull) (free : receiver.Free config)
    (clean : ∀ n, ∀ axis ∈ (receiver.store.tick n).axis, axis.tuser = true →
      (receiver.store.arrived n).left = [] ∧
        7 ≤ ((receiver.store.arrived n).frame ++ axis.word).length) :
    receiver.Raises config := by
  have carried (n : Nat) : List.Forall₂ (Carries config)
      (log takeBeat (beatCommand config) (.s0, .zero)
        ((receiver.store.arrived n).kept.map TxBeat.seen))
      ((receiver.store.frames n).filter (Accepted config ·)) := by
    rw [RxFifoRun.kept_eq_good receives fun m _ axis offered user => (clean m axis offered user).1,
      RxFifoRun.map_good receives]
    exact log_frames config .zero
      (RxFifoRun.enough_frames (fun m axis offered user => (clean m axis offered user).2) n)
  have logged {early late : List TxBeat} (le : early <+: late) :
      log takeBeat (beatCommand config) (.s0, .zero) (early.map TxBeat.seen) <+:
        log takeBeat (beatCommand config) (.s0, .zero) (late.map TxBeat.seen) := by
    obtain ⟨rest, rfl⟩ := le
    rw [List.map_append, log_append]
    exact List.prefix_append _ _
  have early (n : Nat) : ∃ frames,
      frames <+: (receiver.store.frames n).filter (Accepted config ·) ∧
        List.Forall₂ (Carries config) (receiver.raised config n) frames := by
    refine carries_prefix (carried n) (List.IsPrefix.trans ?_
      (logged (RxFifoRun.received_prefix eight paced receives never n)))
    rw [← raised_pending free n]
    exact List.prefix_append _ _
  refine ⟨early, fun ready n => ?_⟩
  obtain ⟨first, received⟩ := RxFifoRun.exists_received eight paced receives never ready n
  obtain ⟨m, flushed⟩ := exists_raised free ready first
  obtain ⟨frames, inside, raised⟩ := early m
  refine ⟨m, frames, ?_, raised⟩
  -- as many commands are raised as frames have been accepted
  have count := ((logged received).trans flushed).length_le
  rw [(carried n).length_eq, raised.length_eq] at count
  refine List.prefix_of_prefix_length_le ?_
    (inside.trans ((receiver.store.frames_mono (le_max_right n m)).filter _)) count
  exact (receiver.store.frames_mono (le_max_left n m)).filter _

/-- A frame with an error whose last beat leaves nothing, and a datagram behind it. -/
def badThenDatagram : List WrAxis :=
  [⟨1, 0b11111111, true, false, false⟩, ⟨2, 0b11111111, true, false, false⟩,
    ⟨3, 0b00001111, true, true, false⟩] ++
    datagram.zipIdx.map fun (tdata, i) => ⟨tdata, 0b11111111, true, i = 7, i = 7⟩

/-- It arrives at a parser that is never hindered. -/
def badThenDatagramReceiver : Receiver 5 where
  store := RxFifoRun.playedRun 5 badThenDatagram
  rx := .idle
  before := []
  silent _ member := absurd member List.not_mem_nil

theorem badThenDatagram_free : badThenDatagramReceiver.Free station := by
  intro n
  refine along_of_forall fun rx input member => ?_
  have room : input.cmdFifoFull = false := by
    induction n with
    | zero => exact absurd member List.not_mem_nil
    | succ n inductionHypothesis =>
      rcases List.mem_append.mp member with old | new
      · exact inductionHypothesis old
      · rw [List.mem_singleton.mp new]
        rfl
  exact ⟨fun _ full => absurd (room.symm.trans full) Bool.false_ne_true, fun _ _ => room⟩

theorem badThenDatagram_raises : badThenDatagramReceiver.Raises station := by
  refine raises_commands station badThenDatagramReceiver (by decide) RxFifoRun.played_paced
    (RxFifoRun.played_receives (by decide +kernel))
    (RxFifoRun.played_never 36 (by decide) (by decide +kernel) (by decide +kernel)
      (by decide +kernel) (by decide +kernel)) badThenDatagram_free fun n axis offered user => ?_
  cases offered
  rcases Nat.lt_or_ge n badThenDatagram.length with early | late
  · have all : ∀ n < badThenDatagram.length, (badThenDatagram.getD n .quiet).tuser = true →
        ((RxFifoRun.playedRun 5 badThenDatagram).arrived n).left = [] ∧
          7 ≤ (((RxFifoRun.playedRun 5 badThenDatagram).arrived n).frame ++
            (badThenDatagram.getD n .quiet).word).length := by decide +kernel
    exact all n early user
  · rw [RxFifoRun.getD_past late] at user
    cases user

end Receiver

end K71GbE.TenGigEth
