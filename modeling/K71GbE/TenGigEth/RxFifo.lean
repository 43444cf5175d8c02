/-
This file is about the receive FIFO over whole runs.

As long as the FIFO does not become full, what comes out are the good frames, whole
and in their order. But a frame that is dropped may leave its last beat in front of
the next one: the read side gives out exactly the good frames only if no good frame
comes behind such a frame.
-/

import K71GbE.TenGigEth.FifoRun
import K71GbE.TenGigEth.RxFifoWrite

namespace K71GbE.TenGigEth

open Clocked

variable {w : Nat}

/-- A run of the receive FIFO. -/
abbrev RxFifoRun (w : Nat) := FifoRun false w

/-- Nothing on the write interface. -/
def WrAxis.quiet : WrAxis := ⟨0, 0, false, false, false⟩

namespace RxFifoRun

/-- What has arrived before tick `n`. -/
def arrived (run : RxFifoRun w) : Nat → Arrived
  | 0 => .nothing
  | n + 1 =>
    match (run.tick n).axis with
    | none => run.arrived n
    | some axis => (run.arrived n).next axis

/-- The beats of the good frames alone. -/
def good (run : RxFifoRun w) : Nat → List TxBeat
  | 0 => []
  | n + 1 =>
    run.good n ++
      match (run.tick n).axis with
      | none => []
      | some axis => if axis.tuser then ended ((run.arrived n).frame ++ axis.word) else []

/-- The beats transferred out of the FIFO. -/
def received (run : RxFifoRun w) : Nat → List TxBeat
  | 0 => []
  | n + 1 =>
    run.received n ++ if (run.fifo n).delivers (run.tick n) then [(run.fifo n).rd.beat] else []

/-- The frames that are kept. -/
def level (run : RxFifoRun w) : Nat → Nat
  | 0 => 0
  | n + 1 => run.level n + ((run.tick n).axis.any (·.tuser)).toNat

/-- The beats of these in the RAM. -/
def stored (run : RxFifoRun w) (n : Nat) : Nat :=
  (run.arrived n).kept.length - (run.fifo n).wr.wrEof.toNat

/-- The MAC keeps to its interface. -/
def Receives (run : RxFifoRun w) : Prop :=
  ∀ n, ∀ axis ∈ (run.tick n).axis, (run.arrived n).Admits axis

/-- The FIFO does not become full. -/
def NeverFull (run : RxFifoRun w) : Prop := ∀ n, (run.fifo n).wr.wrFifoFull = false

/-- Before tick `n` no good frame has come behind one that has left a beat. -/
def CleanTo (run : RxFifoRun w) (n : Nat) : Prop :=
  ∀ m < n, ∀ axis ∈ (run.tick m).axis, axis.tuser = true → (run.arrived m).left = []

/-- What comes out of the FIFO are the frames that are kept: each only when it is complete, without
a gap and held until it is taken, and all of them if the receiver is ready again and again. -/
structure Passes (run : RxFifoRun w) : Prop where
  inOrder : ∀ n, run.received n <+: (run.arrived n).kept
  onBus : ∀ n, (run.fifo n).rd.rdAxisTvalid = true →
    run.received n ++ [(run.fifo n).rd.beat] <+: (run.arrived n).kept
  stays : ∀ n, (run.fifo n).rd.rdAxisTvalid = true →
    (run.fifo n).delivers (run.tick n) = false → (run.fifo (n + 1)).rd.rdAxisTvalid = true
  noGap : ∀ n, ∀ last ∈ (run.received n).getLast?, last.tlast = false →
    (run.fifo n).rd.rdAxisTvalid = true
  arrives : run.Ready → ∀ n, ∃ m, (run.arrived n).kept <+: run.received m

/-! ### The stream that is kept -/

theorem kept_mono (run : RxFifoRun w) {n m : Nat} (le : n ≤ m) :
    (run.arrived n).kept <+: (run.arrived m).kept := by
  induction m, le using Nat.le_induction with
  | base => exact List.prefix_refl _
  | succ m le inductionHypothesis =>
    refine inductionHypothesis.trans ?_
    rw [arrived]
    cases (run.tick m).axis with
    | none => exact List.prefix_refl _
    | some axis =>
      cases last : axis.tlast with
      | false => rw [(Arrived.next_inside _ last).1]
      | true =>
        cases good : axis.tuser with
        | false => rw [(Arrived.next_bad _ last good).1]
        | true =>
          rw [(Arrived.next_good _ last good).1]
          exact List.prefix_append _ _

/-- What is kept ends with a frame. -/
theorem kept_closed {run : RxFifoRun w} (receives : run.Receives) (n : Nat) :
    (run.arrived n).kept = [] ∨
      ∃ before last, (run.arrived n).kept = before ++ [last] ∧ last.tlast = true := by
  induction n with
  | zero => exact Or.inl rfl
  | succ n inductionHypothesis =>
    rw [arrived]
    cases offered : (run.tick n).axis with
    | none => exact inductionHypothesis
    | some axis =>
      have admits := receives n axis offered
      show (Arrived.next _ axis).kept = [] ∨ _
      cases last : axis.tlast with
      | false =>
        rw [(Arrived.next_inside _ last).1]
        exact inductionHypothesis
      | true =>
        cases good : axis.tuser with
        | false =>
          rw [(Arrived.next_bad _ last good).1]
          exact inductionHypothesis
        | true =>
          obtain ⟨before, final, _, split⟩ := admits.exists_concat good
          rw [(Arrived.next_good _ last good).1, split, ended_concat, ← List.append_assoc]
          exact Or.inr ⟨_, _, rfl, rfl⟩

theorem formed {run : RxFifoRun w} (receives : run.Receives) (n : Nat) :
    (run.arrived n).Formed := by
  induction n with
  | zero =>
    have noBeat {beat : TxBeat} {goal : Prop} (member : beat ∈ ([] : List TxBeat)) : goal :=
      absurd member List.not_mem_nil
    exact ⟨⟨fun _ member => absurd member (Option.not_mem_none _), List.isChain_nil,
      fun _ => noBeat,
      fun _ => noBeat⟩, fun _ => noBeat, fun _ => noBeat, fun _ => noBeat, fun _ => noBeat,
      Nat.zero_le 2⟩
  | succ n inductionHypothesis =>
    rw [arrived]
    cases offered : (run.tick n).axis with
    | none => exact inductionHypothesis
    | some axis => exact inductionHypothesis.next (receives n axis offered)

/-- The frames that are kept are the beginnings of a stream in frames. -/
theorem exists_beats {run : RxFifoRun w} (receives : run.Receives) :
    ∃ beats, FramedBeats beats ∧
      ∀ n p beat, (run.arrived n).kept[p]? = some beat → beats p = beat := by
  obtain ⟨beats, follows, padded⟩ := exists_stream (⟨0, 0b11111111, false⟩ : TxBeat) run.kept_mono
  have framed (n : Nat) := (formed receives n).kept
  refine ⟨beats, ⟨?_, fun i last => ?_, fun i inner => ?_, fun i => ?_⟩, follows⟩
  · rcases padded 0 with ⟨n, found⟩ | pad
    · exact (framed n).first _ (by rwa [List.head?_eq_getElem?])
    · rw [pad]
  · rcases padded (i + 1) with ⟨n, next⟩ | pad
    · rcases padded i with ⟨m, found⟩ | early
      · have here := getElem?_beginning (run.kept_mono (le_max_left m n)) found
        have behind := getElem?_beginning (run.kept_mono (le_max_right m n)) next
        obtain ⟨short, here⟩ := List.getElem?_eq_some_iff.mp here
        obtain ⟨long, behind⟩ := List.getElem?_eq_some_iff.mp behind
        have apart := List.isChain_iff_getElem.mp (framed (max m n)).spaced i long
        rw [here, behind] at apart
        exact apart last
      · rw [early] at last
        cases last
    · rw [pad]
  · rcases padded i with ⟨n, found⟩ | pad
    · exact (framed n).full _ (List.mem_of_getElem? found) inner
    · rw [pad]
  · rcases padded i with ⟨n, found⟩ | pad
    · exact (framed n).lowest _ (List.mem_of_getElem? found)
    · exact ⟨0b111, by rw [pad]; rfl⟩

/-! ### Both sides -/

/-- The two sides before tick `n`. -/
structure Held (run : RxFifoRun w) (beats : Nat → TxBeat) (n : Nat) : Prop where
  receiving : (run.fifo n).wr.Receiving (run.arrived n) (run.level n) (run.seen n)
  holding : (run.fifo n).wr.Holding (run.arrived n) (run.fifo n).ram (run.read n)
  served : run.Served beats run.level (run.stored n) n
  count : framesBefore beats (run.arrived n).kept.length = run.level n

section Steps

variable {run : RxFifoRun w} {beats : Nat → TxBeat} {n : Nat} (held : run.Held beats n)
  (follows : ∀ n p beat, (run.arrived n).kept[p]? = some beat → beats p = beat)
  (receives : run.Receives) (never : run.NeverFull)

include follows receives in
/-- A good frame is one more in the stream. -/
theorem count_next {axis : WrAxis} (offered : (run.tick n).axis = some axis) :
    framesBefore beats (run.arrived (n + 1)).kept.length =
      framesBefore beats (run.arrived n).kept.length + axis.tuser.toNat := by
  have admits := receives n axis offered
  have form := formed receives n
  have next : run.arrived (n + 1) = (run.arrived n).next axis := by rw [arrived, offered]
  have follow := follows (n + 1)
  rw [next] at follow ⊢
  cases good : axis.tuser with
  | false =>
    cases last : axis.tlast with
    | false => rw [(Arrived.next_inside _ last).1]; rfl
    | true => rw [(Arrived.next_bad _ last good).1]; rfl
  | true =>
    have last := admits.user good
    obtain ⟨before, final, _, split⟩ := admits.exists_concat good
    rw [(Arrived.next_good _ last good).1, split, ended_concat] at follow ⊢
    have inner (i : Nat) (less : i < before.length) :
        (beats ((run.arrived n).kept.length + i)).tlast = false := by
      have here : ((run.arrived n).kept ++ (before ++ [{ final with tlast := true }]))[
          (run.arrived n).kept.length + i]? = some before[i] := by
        rw [List.getElem?_append_right (Nat.le_add_right _ _), Nat.add_sub_cancel_left,
          List.getElem?_append_left less, List.getElem?_eq_getElem less]
      rw [follow _ _ here]
      refine (form.inner_word admits ?_).1
      rw [split]
      exact List.mem_append_left _ (List.getElem_mem less)
    have marked : (beats ((run.arrived n).kept.length + before.length)).tlast = true := by
      rw [follow _ { final with tlast := true } (by simp)]
    rw [List.length_append, List.length_append, List.length_singleton, ← Nat.add_assoc,
      framesBefore_succ, marked, framesBefore_add inner]

include held receives

/-- Behind every edge the frames kept before it are in the RAM. -/
theorem Held.stored_next {axis : WrAxis} (offered : (run.tick n).axis = some axis) :
    (run.fifo (n + 1)).wr.wrEof = axis.tuser ∧
      (run.arrived n).kept.length ≤ run.stored (n + 1) := by
  have admits := receives n axis offered
  have eof : (run.fifo (n + 1)).wr.wrEof = axis.tuser := by
    rw [(held.served.wr_next offered).1]
    exact WrSide.wrEof_receive admits _
  refine ⟨eof, ?_⟩
  rw [stored, eof, arrived, offered]
  cases good : axis.tuser with
  | false =>
    cases last : axis.tlast with
    | false => exact (congrArg List.length (Arrived.next_inside _ last).1).ge
    | true => exact (congrArg List.length (Arrived.next_bad _ last good).1).ge
  | true =>
    obtain ⟨before, final, _, split⟩ := admits.exists_concat good
    have length : ((run.arrived n).next axis).kept.length = _ :=
      congrArg List.length (Arrived.next_good _ (admits.user good) good).1
    rw [List.length_append, length_ended, split, List.length_append, List.length_singleton]
      at length
    rw [length, Bool.toNat_true]
    omega

include follows

/-- What the write side keeps to at every tick. -/
theorem Held.supplies : run.Supplies beats run.level run.stored n := by
  have room := held.receiving.room
  have seen_read := held.served.seen_read
  have words : run.stored n ≤ (run.fifo n).wr.ramWords (run.arrived n) := Nat.le_add_right _ _
  refine ⟨held.receiving.tog, ?_, fun p after before => ?_, ?_, fun noEdge => ?_, fun edge => ?_,
    ?_⟩
  · split_ifs at room <;> omega
  · have inside : p < (run.arrived n).kept.length := before.trans_le (Nat.sub_le _ _)
    have here := List.getElem?_eq_getElem inside
    rw [follows n p _ here]
    refine held.holding p _ after (before.trans_le words) ?_
    rw [List.getElem?_append_left inside]
    exact here
  · cases offered : (run.tick n).axis with
    | none =>
      rw [stored, stored, (run.wr_still offered).1, arrived, offered]
    | some axis =>
      exact (Nat.sub_le _ _).trans (held.stored_next receives offered).2
  · rw [level, stored, stored, (run.wr_still noEdge).1, arrived, noEdge]
    exact ⟨rfl, rfl⟩
  · obtain ⟨axis, offered⟩ := Option.ne_none_iff_exists'.mp edge
    rw [← held.count]
    exact framesBefore_mono (held.stored_next receives offered).2
  · rw [level]
    cases offered : (run.tick n).axis with
    | none => exact Or.inl rfl
    | some axis =>
      rw [(held.stored_next receives offered).1, Option.any_some]
      cases good : axis.tuser with
      | false => exact Or.inl rfl
      | true =>
        have admits := receives n axis offered
        have late := admits.apart (admits.user good)
        refine Or.inr ⟨rfl, rfl, Bool.eq_false_of_not_eq_true fun eof => ?_⟩
        have age := (held.receiving.age_of_eof eof).2
        omega

include never

theorem Held.next (paced : run.Paced) (frames : FramedBeats beats) (eight : 8 ≤ 2 ^ w) :
    run.Held beats (n + 1) := by
  have supplies := held.supplies follows receives
  have served := held.served.next supplies frames (positive_of_eight eight) paced
  have read_le : run.read n ≤ run.read (n + 1) := Nat.le_add_right _ _
  have words : run.stored n ≤ (run.fifo n).wr.ramWords (run.arrived n) := Nat.le_add_right _ _
  have behind := held.served.seen_read.trans (held.served.read_le.trans words)
  have room := held.receiving.room
  have seen_read := held.served.seen_read
  cases offered : (run.tick n).axis with
  | none =>
    obtain ⟨wr, ram⟩ := run.wr_still offered
    have still : run.arrived (n + 1) = run.arrived n := by rw [arrived, offered]
    have level : run.level (n + 1) = run.level n := by
      rw [level, offered]
      rfl
    refine ⟨?_, ?_, served, ?_⟩
    · rw [wr, still, level, FifoRun.seen, offered]
      exact held.receiving
    · rw [wr, still, ram]
      exact fun p beat after => held.holding p beat (read_le.trans after)
    · rw [still, level]
      exact held.count
  | some axis =>
    have admits := receives n axis offered
    have free := never n
    obtain ⟨wr, ram⟩ := held.served.wr_next offered
    have next : run.arrived (n + 1) = (run.arrived n).next axis := by rw [arrived, offered]
    have still := never (n + 1)
    have level : run.level (n + 1) = run.level n + axis.tuser.toNat := by
      rw [level, offered]
      rfl
    rw [wr] at still
    refine ⟨?_, ?_, served, ?_⟩
    · rw [wr, next, level, FifoRun.seen, offered]
      exact held.receiving.next admits free behind eight held.served.falls still
    · rw [wr, next, ram]
      have holding := held.receiving.holding_next admits free held.holding
        (by split_ifs at room <;> omega) (Gray.encode (BitVec.ofNat w (run.sampled n)))
      exact fun p beat after => holding p beat (read_le.trans after)
    · rw [level, ← held.count]
      exact count_next follows receives offered

end Steps

theorem held_zero (run : RxFifoRun w) (beats : Nat → TxBeat) (receives : run.Receives)
    (eight : 8 ≤ 2 ^ w) : run.Held beats 0 := by
  have served : run.Served beats run.level (run.stored 0) 0 := by
    rw [stored, arrived]
    exact (Nat.zero_sub _).symm ▸ run.served_zero beats run.level rfl
  have form := formed receives 0
  obtain ⟨before, eof, start⟩ := run.reset
  have words : before.reset.wr.ramWords .nothing = 0 := by
    rw [WrSide.ramWords]
    exact Nat.zero_sub _
  refine ⟨?_, fun p beat after early => ?_, served, ?_⟩
  · rw [start]
    exact {
      formed := form
      register := Or.inl ⟨eof, Or.inl ⟨rfl, (by decide : (0 : BitVec 3) ≠ 0b111)⟩⟩
      wrAddr := (congrArg (BitVec.ofNat w) words).symm
      store := eof.symm
      stored := fun reg => absurd reg Bool.false_ne_true
      wrAddrLast := fun _ _ => rfl
      tog := Nat.bodd_zero.symm
      synced := before.wr.synced_reset
      room := by
        show before.reset.wr.ramWords .nothing + 7 ≤ 0 + 2 ^ w
        rw [words]
        omega }
  · rw [start] at early
    exact absurd (words ▸ early) (Nat.not_lt_zero p)
  · exact Nat.count_zero _

section Law

variable {run : RxFifoRun w} {beats : Nat → TxBeat} (framed : FramedBeats beats)
  (follows : ∀ n p beat, (run.arrived n).kept[p]? = some beat → beats p = beat)
  (eight : 8 ≤ 2 ^ w) (paced : run.Paced) (receives : run.Receives) (never : run.NeverFull)

include framed follows eight paced receives never

theorem held (n : Nat) : run.Held beats n := by
  induction n with
  | zero => exact held_zero run beats receives eight
  | succ n inductionHypothesis =>
    exact inductionHypothesis.next follows receives never paced framed eight

theorem keeps : run.Keeps beats run.level run.stored where
  framed := framed
  positive := positive_of_eight eight
  paced := paced
  served n := (held framed follows eight paced receives never n).served
  supplies n := (held framed follows eight paced receives never n).supplies follows receives

/-- What has been received is the beginning of the stream, and has been kept before. -/
theorem received_eq (n : Nat) :
    run.received n = (List.range (run.delivered n)).map beats ∧
      run.delivered n ≤ (run.arrived n).kept.length := by
  have keeps := keeps framed follows eight paced receives never
  induction n with
  | zero => exact ⟨rfl, Nat.zero_le _⟩
  | succ n inductionHypothesis =>
    obtain ⟨same, le⟩ := inductionHypothesis
    have mono := (run.kept_mono n.le_succ).length_le
    rw [received, FifoRun.delivered]
    cases delivers : (run.fifo n).delivers (run.tick n) with
    | false =>
      rw [if_neg Bool.false_ne_true, List.append_nil]
      exact ⟨same, le.trans mono⟩
    | true =>
      obtain ⟨beat, early⟩ := (keeps.served n).beat_of_delivers delivers
      rw [← (held framed follows eight paced receives never n).count] at early
      rw [if_pos rfl, Bool.toNat_true, List.range_succ, List.map_append, List.map_singleton, beat,
        same]
      exact ⟨rfl, (lt_of_framesBefore beats early).trans_le mono⟩

end Law

/-! ### What comes out -/

section Laws

variable {run : RxFifoRun w} (eight : 8 ≤ 2 ^ w) (paced : run.Paced) (receives : run.Receives)
  (never : run.NeverFull)

include eight paced receives never

theorem received_prefix (n : Nat) : run.received n <+: (run.arrived n).kept := by
  obtain ⟨beats, framed, follows⟩ := exists_beats receives
  obtain ⟨same, le⟩ := received_eq framed follows eight paced receives never n
  rw [same]
  exact map_range_prefix (follows n) le

/-- All that is kept is received. -/
theorem exists_received (ready : run.Ready) (n : Nat) :
    ∃ m, (run.arrived n).kept <+: run.received m := by
  obtain ⟨beats, framed, follows⟩ := exists_beats receives
  rcases kept_closed receives n with empty | ⟨before, last, kept, ends⟩
  · exact ⟨0, by rw [empty]; exact List.nil_prefix⟩
  · have here : (run.arrived n).kept[before.length]? = some last := by
      rw [kept]
      simp
    have length : (run.arrived n).kept.length = before.length + 1 := by
      rw [kept, List.length_append, List.length_singleton]
    have whole : framesBefore beats before.length < run.level n := by
      rw [← (held framed follows eight paced receives never n).count, length, framesBefore_succ,
        follows n _ _ here, ends]
      exact Nat.lt_succ_self _
    obtain ⟨m, passed⟩ :=
      (keeps framed follows eight paced receives never).exists_delivered ready whole
    refine ⟨m, ?_⟩
    rw [(received_eq framed follows eight paced receives never m).1]
    exact prefix_map_range (follows n) (by omega)

/-- What is on the read interface is the next beat that is kept. -/
theorem received_beat {n : Nat} (valid : (run.fifo n).rd.rdAxisTvalid = true) :
    run.received n ++ [(run.fifo n).rd.beat] <+: (run.arrived n).kept := by
  obtain ⟨beats, framed, follows⟩ := exists_beats receives
  have served := (keeps framed follows eight paced receives never).served n
  obtain ⟨beat, early⟩ := served.beat_of_valid valid
  rw [← (held framed follows eight paced receives never n).count] at early
  have more : (List.range (run.delivered n)).map beats ++ [beats (run.delivered n)] =
      (List.range (run.delivered n + 1)).map beats := by
    rw [List.range_succ, List.map_append, List.map_singleton]
  rw [(received_eq framed follows eight paced receives never n).1, beat, more]
  exact map_range_prefix (follows n) (lt_of_framesBefore beats early)

/-- Behind a beat that does not end its frame comes another one at once. -/
theorem valid_of_received {n : Nat} {last : TxBeat} (final : last ∈ (run.received n).getLast?)
    (inner : last.tlast = false) : (run.fifo n).rd.rdAxisTvalid = true := by
  obtain ⟨beats, framed, follows⟩ := exists_beats receives
  have served := (keeps framed follows eight paced receives never).served n
  rw [(received_eq framed follows eight paced receives never n).1] at final
  exact served.valid_of_last final inner

end Laws

/-- As long as the receive FIFO does not become full, what comes out are the frames that are
kept. -/
theorem frames_pass (run : RxFifoRun w) (eight : 8 ≤ 2 ^ w) (paced : run.Paced)
    (receives : run.Receives) (never : run.NeverFull) : run.Passes where
  inOrder := received_prefix eight paced receives never
  onBus _ := received_beat eight paced receives never
  stays _ := run.valid_next
  noGap _ _ := valid_of_received eight paced receives never
  arrives := exists_received eight paced receives never

/-! ### The good frames alone -/

theorem good_mono (run : RxFifoRun w) {n m : Nat} (le : n ≤ m) : run.good n <+: run.good m := by
  induction m, le using Nat.le_induction with
  | base => exact List.prefix_refl _
  | succ m le inductionHypothesis => exact inductionHypothesis.trans (List.prefix_append _ _)

/-- A good frame behind what is kept, and behind the good frames. -/
theorem kept_good_next {run : RxFifoRun w} (receives : run.Receives) {n : Nat} {axis : WrAxis}
    (offered : (run.tick n).axis = some axis) (user : axis.tuser = true) :
    (run.arrived (n + 1)).kept =
        (run.arrived n).kept ++ ended ((run.arrived n).waiting ++ axis.word) ∧
      run.good (n + 1) = run.good n ++ ended ((run.arrived n).frame ++ axis.word) := by
  have last := (receives n axis offered).user user
  rw [arrived, good, offered]
  exact ⟨(Arrived.next_good _ last user).1, by simp only [user, if_true]⟩

/-- As long as no beat is left in front of a good frame, nothing else is kept. -/
theorem kept_eq_good {run : RxFifoRun w} (receives : run.Receives) {n : Nat}
    (clean : run.CleanTo n) : (run.arrived n).kept = run.good n := by
  induction n with
  | zero => rfl
  | succ n inductionHypothesis =>
    have before := inductionHypothesis fun m less => clean m (Nat.lt_succ_of_lt less)
    cases offered : (run.tick n).axis with
    | none =>
      rw [arrived, good, offered, List.append_nil]
      exact before
    | some axis =>
      cases user : axis.tuser with
      | true =>
        obtain ⟨kept, good⟩ := kept_good_next receives offered user
        have left := clean n (Nat.lt_succ_self n) axis offered user
        rw [kept, good, before, Arrived.waiting, left, List.nil_append]
      | false =>
        rw [arrived, good, offered, ← before]
        simp only [user, Bool.false_eq_true, if_false, List.append_nil]
        cases last : axis.tlast with
        | false => exact (Arrived.next_inside _ last).1
        | true => exact (Arrived.next_bad _ last user).1

/-- With a beat that is left in front of it, a good frame ends later than it should. -/
theorem not_prefix_of_left {run : RxFifoRun w} (receives : run.Receives) {n : Nat} {axis : WrAxis}
    (offered : (run.tick n).axis = some axis) (user : axis.tuser = true)
    (clean : run.CleanTo n) (left : (run.arrived n).left ≠ []) (m : Nat) :
    ¬(run.arrived (n + 1)).kept <+: run.good m := by
  intro early
  have admits := receives n axis offered
  have form := formed receives n
  obtain ⟨kept, good⟩ := kept_good_next receives offered user
  rw [kept, kept_eq_good receives clean] at early
  have later := early.trans (run.good_mono (le_max_left m (n + 1)))
  have whole := run.good_mono (le_max_right m (n + 1))
  rw [good] at whole
  -- where the frame ends, another beat comes
  rcases List.eq_nil_or_concat ((run.arrived n).frame ++ axis.word) with
    empty | ⟨before, last, split⟩
  · have two := admits.two user
    rw [empty] at two
    exact absurd two (by decide)
  · rw [List.concat_eq_append] at split
    have marked : (run.good n ++ ended ((run.arrived n).frame ++ axis.word))[
        (run.good n).length + before.length]? = some { last with tlast := true } := by
      rw [split, ended_concat]
      simp
    have short : before.length < ((run.arrived n).waiting ++ axis.word).length - 1 := by
      have positive := List.length_pos_of_ne_nil left
      rw [Arrived.waiting, List.append_assoc, split, List.length_append, List.length_append,
        List.length_singleton]
      omega
    have inside : before.length < ((run.arrived n).waiting ++ axis.word).length := by omega
    have here := List.getElem?_eq_getElem inside
    have other : (run.good n ++ ended ((run.arrived n).waiting ++ axis.word))[
        (run.good n).length + before.length]? =
          some ((run.arrived n).waiting ++ axis.word)[before.length] := by
      rw [List.getElem?_append_right (Nat.le_add_right _ _), Nat.add_sub_cancel_left,
        getElem?_ended short]
      exact here
    have same := (getElem?_beginning later other).symm.trans (getElem?_beginning whole marked)
    rw [Option.some_inj] at same
    have inner := (form.inner_word admits (List.getElem_mem inside)).1
    rw [same] at inner
    cases inner

/-- The receive FIFO gives out the good frames alone if and only if no good frame comes behind a
dropped one whose last beat has used all lanes. -/
theorem gives_good_iff (run : RxFifoRun w) (eight : 8 ≤ 2 ^ w) (paced : run.Paced)
    (receives : run.Receives) (never : run.NeverFull) (ready : run.Ready) :
    (∀ n, run.received n <+: run.good n) ↔
      ∀ n, ∀ axis ∈ (run.tick n).axis, axis.tuser = true → (run.arrived n).left = [] := by
  constructor
  · intro alone
    have clean (n : Nat) : run.CleanTo n := by
      induction n with
      | zero => exact fun m less => absurd less (Nat.not_lt_zero m)
      | succ n inductionHypothesis =>
        intro m less axis offered user
        rcases Nat.lt_succ_iff_lt_or_eq.mp less with early | rfl
        · exact inductionHypothesis m early axis offered user
        · by_contra left
          obtain ⟨last, all⟩ := exists_received eight paced receives never ready (m + 1)
          exact not_prefix_of_left receives offered user inductionHypothesis left last
            (all.trans (alone last))
    exact fun n => clean (n + 1) n (Nat.lt_succ_self n)
  · intro clean n
    rw [← kept_eq_good receives fun m _ => clean m]
    exact received_prefix eight paced receives never n

/-- A MAC that puts these on the write interface and then nothing, with a receiver that is always
ready. -/
def played (w : Nat) (axes : List WrAxis) : Nat → AxiFifo w
  | 0 => AxiFifo.configured.reset
  | n + 1 => (played w axes n).step false (.both (axes.getD n .quiet) true 0)

def playedRun (w : Nat) (axes : List WrAxis) : RxFifoRun w where
  fifo := played w axes
  tick n := .both (axes.getD n .quiet) true 0
  reset := ⟨AxiFifo.configured, rfl, rfl⟩
  clocked _ := rfl

/-- A frame with an error and a good one behind it, each of three full beats. -/
def badThenGood : List WrAxis :=
  [⟨1, 0b11111111, true, false, false⟩, ⟨2, 0b11111111, true, false, false⟩,
    ⟨3, 0b11111111, true, true, false⟩, ⟨4, 0b11111111, true, false, false⟩,
    ⟨5, 0b11111111, true, false, false⟩, ⟨6, 0b11111111, true, true, true⟩]

theorem step_quiet {fifo : AxiFifo w}
    (wr : (fifo.step false (.both .quiet true 0)).wr = fifo.wr)
    (rd : (fifo.step false (.both .quiet true 0)).rd = fifo.rd)
    (off : fifo.wr.wrEnableRam .quiet = false) : fifo.step false (.both .quiet true 0) = fifo :=
  AxiFifo.ext wr rd (if_neg (off ▸ Bool.false_ne_true))

section Played

variable {axes : List WrAxis}

theorem getD_past {n : Nat} (past : axes.length ≤ n) : axes.getD n .quiet = .quiet := by
  rw [List.getD_eq_getElem?_getD, List.getElem?_eq_none past]
  rfl

theorem played_paced : (playedRun w axes).Paced := by
  intro n
  show (playedRun w axes).reads n ≤ 3
  cases n with
  | zero => exact Nat.zero_le 3
  | succ n => exact Nat.zero_le 3

theorem played_receives (admits : ∀ n < axes.length,
    ((playedRun w axes).arrived n).Admits (axes.getD n .quiet)) : (playedRun w axes).Receives := by
  intro n axis offered
  cases offered
  rcases Nat.lt_or_ge n axes.length with early | late
  · exact admits n early
  · rw [getD_past late]
    exact ⟨fun last => absurd last Bool.false_ne_true, fun user => absurd user Bool.false_ne_true,
      fun valid => absurd valid Bool.false_ne_true, fun user => absurd user Bool.false_ne_true,
      fun last => absurd last Bool.false_ne_true⟩

variable (settled : Nat) (past : axes.length ≤ settled)
  (wr : ((played w axes settled).step false (.both .quiet true 0)).wr = (played w axes settled).wr)
  (rd : ((played w axes settled).step false (.both .quiet true 0)).rd = (played w axes settled).rd)
  (off : (played w axes settled).wr.wrEnableRam .quiet = false)

include past wr rd off

/-- Once it is read out, nothing changes any more. -/
theorem played_settled (n : Nat) : played w axes (settled + n) = played w axes settled := by
  induction n with
  | zero => rfl
  | succ n inductionHypothesis =>
    rw [← Nat.add_assoc, played, inductionHypothesis, getD_past (past.trans (Nat.le_add_right _ _))]
    exact step_quiet wr rd off

theorem played_never (room : ∀ n < settled + 1, (played w axes n).wr.wrFifoFull = false) :
    (playedRun w axes).NeverFull := by
  intro n
  show (played w axes n).wr.wrFifoFull = false
  rcases Nat.lt_or_ge n (settled + 1) with early | late
  · exact room n early
  · obtain ⟨gap, rfl⟩ := Nat.exists_eq_add_of_le (Nat.le_of_succ_le late)
    rw [played_settled settled past wr rd off]
    exact room settled (Nat.lt_succ_self _)

end Played

theorem badThenGood_never : (playedRun 4 badThenGood).NeverFull :=
  played_never 23 (by decide) (by decide +kernel) (by decide +kernel)
    (by decide +kernel) (by decide +kernel)

theorem badThenGood_receives : (playedRun 4 badThenGood).Receives :=
  played_receives (by decide +kernel)

theorem badThenGood_passes : (playedRun 4 badThenGood).Passes :=
  frames_pass _ (by decide) played_paced badThenGood_receives badThenGood_never

/-- The last beat of the dropped frame comes out in front of the good one. -/
theorem badThenGood_not_alone :
    ¬∀ n, (playedRun 4 badThenGood).received n <+: (playedRun 4 badThenGood).good n := by
  intro alone
  have left := (gives_good_iff (playedRun 4 badThenGood) (by decide) played_paced
    badThenGood_receives badThenGood_never fun n => ⟨n, le_rfl, rfl⟩).mp alone 5 _ rfl rfl
  exact absurd left (by decide +kernel)

end RxFifoRun

end K71GbE.TenGigEth
