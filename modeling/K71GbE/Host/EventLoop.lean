/-
This file models the loop of `main` of `fmc112.c` over the events: each event is
armed, read and written to the event file.

A round is one poll of the status registers while the loop waits for a trigger, and
one round of `select` and `read` while it receives the memory. The bytes that come
during an event are a stream of its own. What the two functions find in their
buffers, and in `wavBuf` before the first event, is anything. The results of
`hdf5io_write_event` and of the queries are not looked at.
-/

import K71GbE.Hdf5.EventFiles
import K71GbE.Host.ArmAcquire
import K71GbE.Host.ReadSave

namespace K71GbE.Host

open Clocked Hdf5 WaveformFile

/-- Where the loop is: in `fmc112_arm_acquire`, in `fmc112_read_save`, or behind its end. -/
inductive Phase where
  | arming (polling : Polling)
  | reading (saving : Saving)
  | ended

/-- The variables of the loop. -/
structure EventLoop where
  phase : Phase
  eventId : UInt64
  wavBuf : Nat → BitVec 16
  waveformFile : WaveformFile

/-- What may happen in a round. -/
structure Round where
  poll : Poll
  read : Option Nat

/-- The command line, the host, what the buffers hold, and the bytes that come for each event. -/
structure Session where
  chMask : BitVec 32
  nEvents : UInt64
  host : Endian
  signed : Bool
  buf : UInt64 → List (BitVec 8)
  status : UInt64 → BitVec 16
  ibuf : UInt64 → List (BitVec 8)
  stream : UInt64 → Nat → BitVec 8

namespace EventLoop

variable (session : Session)

/-- The condition of the loop. -/
def head (loop : EventLoop) : EventLoop :=
  if loop.eventId < session.nEvents then
    { loop with
      phase := .arming (.start (session.buf loop.eventId) (session.status loop.eventId)) }
  else { loop with phase := .ended }

/-- The end of `fmc112_read_save`: the event is written. -/
def save (loop : EventLoop) (saving : Saving) : EventLoop :=
  let wavBuf := writeAll loop.wavBuf saving.written
  let cells := nCh session.chMask * nPt session.chMask
  head session
    { loop with
      wavBuf := wavBuf
      waveformFile := loop.waveformFile.write
        ⟨loop.eventId, (List.range cells).map fun cell => Int16.ofBitVec (wavBuf cell)⟩
      eventId := loop.eventId + 1 }

/-- One round. -/
def step (loop : EventLoop) (round : Round) : EventLoop :=
  match loop.phase with
  | .arming polling =>
    let after := polling.step session.host session.signed round.poll
    if after.finished = 0 then { loop with phase := .arming after }
    else { loop with phase := .reading (.start (session.ibuf loop.eventId)) }
  | .reading saving =>
    let after := saving.follow session.chMask (nPt session.chMask)
      (session.stream loop.eventId) round.read
    if after.status = .finished then loop.save session after
    else { loop with phase := .reading after }
  | .ended => loop

/-- The loop is entered with a new file. -/
def start (wavBuf : Nat → BitVec 16) (waveformFile : WaveformFile) : EventLoop :=
  head session ⟨.ended, 0, wavBuf, waveformFile⟩

end EventLoop

/-! ### What is written for an event -/

/-- The samples of a stream, channel by channel. -/
def waveform (chMask : BitVec 32) (stream : Nat → BitVec 8) : List ScopeData :=
  (List.range (nCh chMask)).flatMap fun j =>
    (List.range (nPt chMask)).map fun p =>
      Int16.ofBitVec
        (stream (2 * (p * nCh chMask + j) + 1) ++ stream (2 * (p * nCh chMask + j)))

theorem length_waveform (chMask : BitVec 32) (stream : Nat → BitVec 8) :
    (waveform chMask stream).length = nCh chMask * nPt chMask := by
  rw [waveform, length_flatMap_range fun j => by rw [List.length_map, List.length_range]]

/-- The cells of a matrix, row by row. -/
theorem range_mul (rows columns : Nat) :
    List.range (rows * columns) =
      (List.range rows).flatMap fun j => (List.range columns).map (j * columns + ·) := by
  induction rows with
  | zero => rw [Nat.zero_mul]; rfl
  | succ rows inductionHypothesis =>
    rw [Nat.add_mul, Nat.one_mul, List.range_add, inductionHypothesis, List.range_succ,
      List.flatMap_append, List.flatMap_singleton]

/-- The bits of a mask of sixteen channels are those that are looked at. -/
theorem length_masked {chMask : BitVec 32} (low : chMask < 0x10000) :
    (masked chMask).length = nCh chMask := by
  rw [masked_eq chMask fun c member => lt_of_mem_setBits (n := 16) low member, nCh_eq]

/-- What `wavBuf` holds when `fmc112_read_save` has received the memory. -/
theorem Follows.waveform_eq {chMask : BitVec 32} {stream : Nat → BitVec 8}
    (low : chMask < 0x10000)
    (count : nCh chMask = 1 ∨ nCh chMask = 4 ∨ nCh chMask = 8 ∨ nCh chMask = 16)
    {saving : Saving} (follows : Follows chMask (nPt chMask) stream saving)
    (finished : saving.status = .finished) (wavBuf : Nat → BitVec 16) :
    ((List.range (nCh chMask * nPt chMask)).map fun cell =>
        Int16.ofBitVec (writeAll wavBuf saving.written cell)) = waveform chMask stream := by
  obtain ⟨_, written⟩ := follows.all_written count (length_masked low) finished
  rw [range_mul, List.map_flatMap, waveform]
  refine List.flatMap_congr fun j channel => ?_
  rw [List.map_map]
  refine List.map_congr_left fun p point => congrArg Int16.ofBitVec ?_
  have inside := sample_inside count (List.mem_range.mp channel) (List.mem_range.mp point)
  rw [written, writeAll_rows wavBuf _ _ _ le_rfl (List.mem_range.mp channel)
    (List.mem_range.mp point), ibufsd_slice stream 0 inside, Nat.zero_add]

/-- A reply with the flag ends the polling, whatever the sign of a `char`. -/
theorem Polling.finished_of_wrapped (host : Endian) (signed : Bool) {polling : Polling}
    (going : polling.finished = 0) {poll : Poll} (wrapped : poll.Wrapped) :
    (polling.step host signed poll).finished ≠ 0 := by
  obtain ⟨full, flag⟩ := wrapped
  have high : (readStatus host 9 poll.flags (readStatus host 8 poll.pointer polling.buf)).getD 2 0 =
      poll.reply.getD 2 0 := by
    rw [getD_readStatus]
    exact if_pos (Nat.lt_of_lt_of_le (by decide) full)
  have bit : ∀ x y : BitVec 8, (x ++ y : BitVec 16).getLsbD 13 = x.getLsbD 5 := by
    intro x y
    exact BitVec.getLsbD_append
  rw [Poll.register, bit] at flag
  rw [Polling.step, if_pos going, and_flag, decodeStatus, toUint16_eq, toUint16_eq, shift_or, bit,
    BitVec.getLsbD_or, high, flag, Bool.true_or]

/-! ### A session -/

section Session

variable (session : Session) (nWfmPerChunk : UInt64) (wavAttr : WaveformAttribute)

/-- The events before the given one, as they should be written. -/
def Session.events (before : UInt64) : List WaveformEvent :=
  (List.range before.toNat).map fun i =>
    ⟨UInt64.ofNat i, waveform session.chMask (session.stream (UInt64.ofNat i))⟩

/-- The new file. -/
def Session.created : WaveformFile :=
  WaveformFile.created nWfmPerChunk (UInt64.ofNat (nCh session.chMask)) wavAttr

/-- So many events are written, and the loop is in the next one, if there is one. -/
structure Recorded (loop : EventLoop) : Prop where
  file : loop.waveformFile =
    run write (session.created nWfmPerChunk wavAttr) (session.events loop.eventId)
  arming : ∀ polling, loop.phase = .arming polling →
    loop.eventId < session.nEvents ∧ polling.finished = 0
  reading : ∀ saving, loop.phase = .reading saving →
    loop.eventId < session.nEvents ∧ saving.status = .receiving ∧
      Follows session.chMask (nPt session.chMask) (session.stream loop.eventId) saving
  ended : loop.phase = .ended → loop.eventId = session.nEvents

variable {session nWfmPerChunk wavAttr}

/-- An identifier below the number of events does not wrap. -/
theorem Session.toNat_succ {eventId : UInt64} (more : eventId < session.nEvents) :
    (eventId + 1).toNat = eventId.toNat + 1 := by
  have small := UInt64.lt_iff_toNat_lt.mp more
  have bound := session.nEvents.toNat_lt
  rw [UInt64.toNat_add]
  exact Nat.mod_eq_of_lt (by show eventId.toNat + 1 < 2 ^ 64; omega)

theorem Session.events_succ {eventId : UInt64} (more : eventId < session.nEvents) :
    session.events (eventId + 1) =
      session.events eventId ++
        [⟨eventId, waveform session.chMask (session.stream eventId)⟩] := by
  rw [events, events, toNat_succ more, List.range_succ, List.map_append, List.map_singleton,
    UInt64.ofNat_toNat]

/-- The head of the loop, with so many events written. -/
theorem Recorded.head {loop : EventLoop}
    (file : loop.waveformFile =
      run write (session.created nWfmPerChunk wavAttr) (session.events loop.eventId))
    (within : loop.eventId ≤ session.nEvents) :
    Recorded session nWfmPerChunk wavAttr (loop.head session) := by
  unfold EventLoop.head
  split_ifs with more
  · refine ⟨file, fun polling phase => ?_, nofun, nofun⟩
    obtain rfl := Phase.arming.inj phase
    exact ⟨more, rfl⟩
  · exact ⟨file, nofun, nofun, fun _ => UInt64.le_antisymm within (UInt64.not_lt.mp more)⟩

/-- A round keeps to the events. -/
theorem Recorded.step (low : session.chMask < 0x10000)
    (count : nCh session.chMask = 1 ∨ nCh session.chMask = 4 ∨ nCh session.chMask = 8 ∨
      nCh session.chMask = 16)
    (buffers : ∀ eventId, (session.ibuf eventId).length = nbask) {loop : EventLoop}
    (recorded : Recorded session nWfmPerChunk wavAttr loop) (round : Round) :
    Recorded session nWfmPerChunk wavAttr (loop.step session round) := by
  obtain ⟨positive, whole, _⟩ := chunk_sizes count
  rw [← length_masked low] at positive whole
  cases phase : loop.phase with
  | ended => rwa [EventLoop.step, phase]
  | arming polling =>
    obtain ⟨more, going⟩ := recorded.arming polling phase
    simp only [EventLoop.step, phase]
    split_ifs with waits
    · refine ⟨recorded.file, fun after same => ?_, nofun, nofun⟩
      obtain rfl := Phase.arming.inj same
      exact ⟨more, waits⟩
    · refine ⟨recorded.file, nofun, fun saving same => ?_, nofun⟩
      obtain rfl := Phase.reading.inj same
      have follows := follows_start (nPt session.chMask) session.chMask
        (session.stream loop.eventId) (buffers loop.eventId)
      exact ⟨more, rfl, follows⟩
  | reading saving =>
    obtain ⟨more, receiving, follows⟩ := recorded.reading saving phase
    have next := follows.follow _ positive whole round.read
    simp only [EventLoop.step, phase]
    split_ifs with finished
    · refine Recorded.head ?_ (UInt64.le_iff_toNat_le.mpr ?_)
      · show loop.waveformFile.write _ = run write _ (session.events (loop.eventId + 1))
        rw [Session.events_succ more, run_concat, ← recorded.file,
          next.waveform_eq low count finished]
      · rw [Session.toNat_succ more]
        exact UInt64.lt_iff_toNat_lt.mp more
    · refine ⟨recorded.file, nofun, fun after same => ?_, nofun⟩
      obtain rfl := Phase.reading.inj same
      refine ⟨more, ?_, next⟩
      cases next with
      | receiving _ status _ _ _ _ => exact status
      | finished _ status _ _ => exact absurd status finished

/-- The rounds that are left, at most: those of the events, and of the one that is under way. -/
def EventLoop.left (session : Session) (loop : EventLoop) : Nat :=
  match loop.phase with
  | .arming _ =>
    (session.nEvents.toNat - loop.eventId.toNat) * (memoryBytes + 2) + (memoryBytes + 1)
  | .reading saving =>
    (session.nEvents.toNat - loop.eventId.toNat) * (memoryBytes + 2) +
      (memoryBytes - (saving.nb + saving.readTotal))
  | .ended => 0

theorem EventLoop.left_head (loop : EventLoop) :
    (loop.head session).left session ≤
      (session.nEvents.toNat - loop.eventId.toNat) * (memoryBytes + 2) + (memoryBytes + 1) := by
  unfold EventLoop.head
  split_ifs
  · exact le_rfl
  · exact Nat.zero_le _

/-- An event that is written leaves fewer rounds than any place in it. -/
theorem EventLoop.left_save {loop : EventLoop} (more : loop.eventId < session.nEvents)
    (saving : Saving) :
    (loop.save session saving).left session <
      (session.nEvents.toNat - loop.eventId.toNat) * (memoryBytes + 2) := by
  have small := UInt64.lt_iff_toNat_lt.mp more
  obtain ⟨events, isEvents⟩ := Nat.exists_eq_add_of_lt small
  have after : (loop.save session saving).left session ≤
      (session.nEvents.toNat - (loop.eventId + 1).toNat) * (memoryBytes + 2) +
        (memoryBytes + 1) := left_head _
  rw [Session.toNat_succ more, isEvents] at after
  rw [isEvents, show loop.eventId.toNat + events + 1 - loop.eventId.toNat = events + 1 by omega,
    Nat.succ_mul]
  rw [show loop.eventId.toNat + events + 1 - (loop.eventId.toNat + 1) = events by omega] at after
  omega

section Progress

variable {before : Nat → EventLoop} {rounds : Nat → Round}
  (next : ∀ k, before (k + 1) = (before k).step session (rounds k))
  (keeps : ∀ k, Recorded session nWfmPerChunk wavAttr (before k))

include next keeps

/-- With flags again and again an event is armed. -/
theorem exists_armed (polls : ∀ n, ∃ m, n ≤ m ∧ (rounds m).poll.Wrapped) {k : Nat}
    {polling : Polling} (phase : (before k).phase = .arming polling) :
    ∃ m, (before m).left session < (before k).left session := by
  have going (m : Nat) {now : Polling}
      (same : before m = { before k with phase := .arming now }) : now.finished = 0 :=
    ((keeps m).arming now (by rw [same])).2
  have comes : ∃ m, k ≤ m ∧ ((rounds m).poll.Wrapped ∨
      ∀ now, before (m + 1) ≠ { before k with phase := .arming now }) :=
    (polls k).imp fun m found => ⟨found.1, .inl found.2⟩
  -- Until the flag comes only the polling changes, or the loop leaves it without the flag.
  obtain ⟨m, _, ⟨now, same⟩, event⟩ := exists_waiting_event
    (fun m => ∃ now, before m = { before k with phase := .arming now })
    ⟨polling, by rw [← phase]⟩
    (fun m _ stays => not_forall_not.mp fun leaves => stays (.inr leaves)) comes
  refine ⟨m + 1, ?_⟩
  have moved : before (m + 1) =
      { before k with phase := .reading (.start (session.ibuf (before k).eventId)) } := by
    have stepped := next m
    rw [same] at stepped
    simp only [EventLoop.step] at stepped
    split_ifs at stepped with waits
    · rcases event with wrapped | leaves
      · exact absurd waits
          (Polling.finished_of_wrapped session.host session.signed (going m same) wrapped)
      · exact absurd stepped (leaves _)
    · exact stepped
  rw [moved]
  simp only [EventLoop.left, phase]
  omega

/-- With bytes again and again more of an event is received. -/
theorem exists_read (reads : ∀ n, ∃ m, n ≤ m ∧ (rounds m).read ≠ none) {k : Nat}
    {saving : Saving} (phase : (before k).phase = .reading saving) :
    ∃ m, (before m).left session < (before k).left session := by
  obtain ⟨more, receiving, follows⟩ := (keeps k).reading saving phase
  have notFinished : saving.status ≠ .finished := by
    rw [receiving]
    decide
  -- Interruptions leave the state as it is, up to the next read.
  obtain ⟨m, _, same, read⟩ := exists_waiting_event (fun m => before m = before k) rfl
    (fun m same interrupted => by
      have stepped := next m
      rw [same] at stepped
      simp only [EventLoop.step, phase, of_not_not interrupted, follows.follow_none _ receiving,
        if_neg notFinished] at stepped
      rw [stepped, ← phase])
    (reads k)
  obtain ⟨amount, round⟩ := Option.ne_none_iff_exists'.mp read
  have fewer := follows.fewer _ receiving amount
  have here : (before k).left session =
      (session.nEvents.toNat - (before k).eventId.toNat) * (memoryBytes + 2) +
        (memoryBytes - (saving.nb + saving.readTotal)) := by
    rw [EventLoop.left, phase]
  refine ⟨m + 1, ?_⟩
  rw [next, same, here]
  simp only [EventLoop.step, phase, round]
  split_ifs with finished
  · exact (EventLoop.left_save more _).trans_le (Nat.le_add_right _ _)
  · exact Nat.add_lt_add_left fewer _

end Progress

section Runs

variable (low : session.chMask < 0x10000)
  (count : nCh session.chMask = 1 ∨ nCh session.chMask = 4 ∨ nCh session.chMask = 8 ∨
    nCh session.chMask = 16)
  (buffers : ∀ eventId, (session.ibuf eventId).length = nbask)

include low count buffers

/-- With flags and bytes again and again the loop comes to its end. -/
theorem Recorded.ends {loop : EventLoop} (recorded : Recorded session nWfmPerChunk wavAttr loop)
    {rounds : Nat → Round} (polls : ∀ n, ∃ m, n ≤ m ∧ (rounds m).poll.Wrapped)
    (reads : ∀ n, ∃ m, n ≤ m ∧ (rounds m).read ≠ none) :
    ∃ k, let after := run (EventLoop.step session) loop (upTo rounds k)
      after.phase = .ended ∧ Recorded session nWfmPerChunk wavAttr after := by
  set before : Nat → EventLoop := fun k =>
    run (EventLoop.step session) loop (upTo rounds k) with runs
  have next : ∀ k, before (k + 1) = (before k).step session (rounds k) := by
    intro k
    rw [runs]
    simp only [upTo_succ, run_concat]
  have keeps : ∀ k, Recorded session nWfmPerChunk wavAttr (before k) := fun k =>
    run_always _ (fun _ round kept => kept.step low count buffers round) recorded (upTo rounds k)
  have progress : ∀ k, ¬(before k).phase = .ended →
      ∃ m, (before m).left session < (before k).left session := by
    intro k going
    cases phase : (before k).phase with
    | ended => exact absurd phase going
    | arming polling => exact exists_armed next keeps polls phase
    | reading saving => exact exists_read next keeps reads phase
  obtain ⟨k, ended⟩ := exists_goal _ progress 0
  exact ⟨k, ended, keeps k⟩

end Runs

/-- The events of a session have increasing identifiers. -/
theorem Session.increasing (session : Session) :
    (session.events session.nEvents).Pairwise fun first second =>
      first.eventId < second.eventId := by
  have bound := session.nEvents.toNat_lt
  refine List.pairwise_map.mpr (List.pairwise_lt_range.imp_of_mem fun member member' less => ?_)
  have small := List.mem_range.mp member
  have small' := List.mem_range.mp member'
  rw [UInt64.lt_iff_toNat_lt, UInt64.toNat_ofNat', UInt64.toNat_ofNat',
    Nat.mod_eq_of_lt (by omega), Nat.mod_eq_of_lt (by omega)]
  exact less

/-- An event below the number of them is one of the session. -/
theorem Session.mem_events (session : Session) {eventId : UInt64}
    (more : eventId < session.nEvents) :
    ⟨eventId, waveform session.chMask (session.stream eventId)⟩ ∈
      session.events session.nEvents := by
  refine List.mem_map.mpr ⟨eventId.toNat, List.mem_range.mpr (UInt64.lt_iff_toNat_lt.mp more), ?_⟩
  rw [UInt64.ofNat_toNat]

/-- The buffers of the events fill their rectangles. -/
theorem Session.full (session : Session)
    (count : nCh session.chMask = 1 ∨ nCh session.chMask = 4 ∨ nCh session.chMask = 8 ∨
      nCh session.chMask = 16) (points : wavAttr.nPt = UInt64.ofNat (nPt session.chMask)) :
    ∀ event ∈ session.events session.nEvents, event.wavBuf.length =
      (UInt64.ofNat (nCh session.chMask)).toNat * wavAttr.nPt.toNat := by
  intro event member
  obtain ⟨i, _, rfl⟩ := List.mem_map.mp member
  have sizes : nCh session.chMask < 2 ^ 64 ∧ nPt session.chMask < 2 ^ 64 := by
    rw [nPt]
    rcases count with same | same | same | same <;> rw [same] <;> decide
  rw [points, UInt64.toNat_ofNat', UInt64.toNat_ofNat', Nat.mod_eq_of_lt sizes.1,
    Nat.mod_eq_of_lt sizes.2]
  exact length_waveform _ _

/-- As long as bytes and flags keep coming, the loop over the events ends. The event file then holds
each event of the session, and nothing else: read again, an event is the samples that came while it
was received, channel by channel. -/
theorem events_recorded (session : Session) (low : session.chMask < 0x10000)
    (count : nCh session.chMask = 1 ∨ nCh session.chMask = 4 ∨ nCh session.chMask = 8 ∨
      nCh session.chMask = 16)
    (buffers : ∀ eventId, (session.ibuf eventId).length = nbask)
    (points : wavAttr.nPt = UInt64.ofNat (nPt session.chMask)) (positive : 0 < nWfmPerChunk)
    (roomy : wavAttr.nPt.toNat * nWfmPerChunk.toNat < 2 ^ 64) (wavBuf : Nat → BitVec 16)
    {rounds : Nat → Round} (polls : ∀ n, ∃ m, n ≤ m ∧ (rounds m).poll.Wrapped)
    (reads : ∀ n, ∃ m, n ≤ m ∧ (rounds m).read ≠ none) :
    ∃ k,
      let after := run (EventLoop.step session)
        (.start session wavBuf (session.created nWfmPerChunk wavAttr)) (upTo rounds k)
      after.phase = .ended ∧ ∀ room,
        let file := (reopened after.waveformFile room).1
        file.getNumberOfEvents = session.nEvents ∧
          ∀ eventId < session.nEvents, ∀ buffer : List ScopeData,
            buffer.length = nCh session.chMask * nPt session.chMask →
            file.readEvent ⟨eventId, buffer⟩ =
              (waveform session.chMask (session.stream eventId), 0) := by
  have begun : Recorded session nWfmPerChunk wavAttr
      (EventLoop.start session wavBuf (session.created nWfmPerChunk wavAttr)) :=
    Recorded.head rfl (UInt64.le_iff_toNat_le.mpr (Nat.zero_le _))
  obtain ⟨k, ended, recorded⟩ := begun.ends low count buffers polls reads
  refine ⟨k, ended, fun room => ?_⟩
  have file := recorded.file
  rw [recorded.ended ended] at file
  have uniform := uniform_created nWfmPerChunk (UInt64.ofNat (nCh session.chMask)) wavAttr
  have order := session.increasing
  have full := session.full count points
  have succeed : AllSucceed (session.created nWfmPerChunk wavAttr)
      (session.events session.nEvents) :=
    (allSucceed_iff _ uniform (chunk_created _ _ _)).mpr
      ⟨fun event _ => fits_of_roomy positive roomy event.eventId,
        order.imp fun order first => chunkId_ne_of_first order first⟩
  have stored := stored_run uniform succeed full
    (order.imp fun order => elsewhere_of_ne positive roomy fun same => by
      rw [same] at order
      exact absurd order (UInt64.lt_irrefl _))
  rw [file, Session.created, agrees_run.reopened_eq room]
  refine ⟨?_, fun eventId inside buffer long => ?_⟩
  · show (run write _ _).nEvents = _
    rw [nEvents_run]
    show (0 : UInt64) + UInt64.ofNat (session.events session.nEvents).length = session.nEvents
    rw [Session.events, List.length_map, List.length_range, UInt64.zero_add, UInt64.ofNat_toNat]
  · refine (stored _ (session.mem_events inside)).flushFile.readEvent (long.trans ?_)
    refine Eq.trans ?_ (size_run eventId).symm
    rw [← full _ (session.mem_events inside), length_waveform]

end Session

/-- Two events of four channels, with two events a chunk. -/
def twoEvents : Session where
  chMask := 0x000f
  nEvents := 2
  host := .little
  signed := true
  buf := fun _ => List.replicate bufsiz 0
  status := fun _ => 0
  ibuf := fun _ => List.replicate nbask 0
  stream := fun eventId i => BitVec.ofNat 8 (i + 16 * eventId.toNat)

/-- Every third round brings the flag and 1448 bytes. -/
def thirdRound (k : Nat) : Round :=
  if k % 3 = 0 then
    ⟨⟨⟨some 4, [.read [0x80, 0x08, 0, 0]]⟩, ⟨some 4, [.read [0x80, 0x09, 0x20, 0]]⟩⟩, some 1447⟩
  else ⟨⟨⟨some 4, []⟩, ⟨some 4, [.read [0x80, 0x09, 0, 0]]⟩⟩, none⟩

theorem events_recorded_twice :
    ∃ k,
      let after := run (EventLoop.step twoEvents)
        (.start twoEvents (fun _ => 0)
          (twoEvents.created 2 (plainAttribute (UInt64.ofNat (nPt 0x000f))))) (upTo thirdRound k)
      after.phase = .ended ∧ ∀ room,
        let file := (reopened after.waveformFile room).1
        file.getNumberOfEvents = 2 ∧
          ∀ buffer : List ScopeData, buffer.length = 4 * nPt 0x000f →
            file.readEvent ⟨1, buffer⟩ =
              (waveform 0x000f fun i => BitVec.ofNat 8 (i + 16 * (1 : UInt64).toNat), 0) := by
  have third : ∀ n, ∃ m, n ≤ m ∧ m % 3 = 0 := fun n => ⟨3 * n, by omega, by omega⟩
  obtain ⟨k, ended, recorded⟩ := @events_recorded 2
    (plainAttribute (UInt64.ofNat (nPt 0x000f))) twoEvents (by decide) (by decide)
    (fun _ => List.length_replicate) rfl (by decide) (by decide +kernel) (fun _ => 0) thirdRound
    (fun n => (third n).imp fun m found => ⟨found.1, by
      rw [thirdRound, if_pos found.2]
      decide⟩)
    (fun n => (third n).imp fun m found => ⟨found.1, by
      rw [thirdRound, if_pos found.2]
      exact Option.some_ne_none _⟩)
  exact ⟨k, ended, fun room => ⟨(recorded room).1, (recorded room).2 1 (by decide)⟩⟩

end K71GbE.Host
