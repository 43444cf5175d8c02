/-
This file models `fmc112_read_save` of `fmc112.c` round by round, and proves that it
takes the memory apart however the reads are cut.

The function asks for a chunk, waits until it has come, and scatters it into
`wavBuf`. A state is what the function holds when it waits. Every copy it makes is
kept, with the bytes the chunk had when it was made. With nothing but reads and
interruptions every chunk comes whole, so its rows follow those of the chunks
before it.
-/

import K71GbE.Clocked.Progress
import K71GbE.Host.Fmc112
import K71GbE.Host.Socket

namespace K71GbE.Host

open Clocked

/-- A copy to `wavBuf`, the bytes received for its chunk, and the sample. -/
structure Store where
  copy : Copy
  readTotal : Nat
  sample : BitVec 16
deriving DecidableEq, Repr

/-- `exited` is behind `exit`, and `hung` in the loop that fills in a chunk. -/
inductive Status where
  | receiving
  | finished
  | exited
  | hung
deriving DecidableEq, Repr

/-- The variables of `fmc112_read_save`, the requests it has sent and the copies it has made. -/
structure Saving where
  nb : Nat
  iP : Nat
  readTotal : Nat
  ibuf : List (BitVec 8)
  requests : Nat
  stored : List Store
  status : Status
deriving DecidableEq, Repr

/-- The bytes of the whole memory. -/
def memoryBytes : Nat := scopeNch * scopeMemLengthMax * 2

/-- The head of the loop: the next chunk is asked for, unless there are no more. -/
def Saving.next (saving : Saving) : Saving :=
  if saving.nb < memoryBytes then
    { saving with requests := saving.requests + 1, readTotal := 0, status := .receiving }
  else { saving with status := .finished }

/-- The first chunk is asked for with a buffer that holds anything. -/
def Saving.start (ibuf : List (BitVec 8)) : Saving := Saving.next ⟨0, 0, 0, ibuf, 0, [], .receiving⟩

/-- A read takes what there is room for. -/
def Saving.take (saving : Saving) : Wait → Saving
  | .read bytes =>
    let got := bytes.take (nbask - saving.readTotal)
    { saving with
      ibuf := overwrite saving.ibuf saving.readTotal got
      readTotal := saving.readTotal + got.length }
  | _ => saving

/-- The loop that waits for a chunk ends with the round. -/
def Ends (readTotal : Nat) : Wait → Prop
  | .failed | .readFailed | .timedOut => True
  | .interrupted => nbask ≤ readTotal
  | .read bytes => bytes = [] ∨ nbask ≤ readTotal

instance (readTotal : Nat) : DecidablePred (Ends readTotal)
  | .failed | .readFailed | .timedOut => inferInstanceAs (Decidable True)
  | .interrupted => inferInstanceAs (Decidable (_ ≤ _))
  | .read _ => inferInstanceAs (Decidable (_ ∨ _))

section Steps

variable (chMask : BitVec 32) (nPt : Nat)

/-- What follows the loop that waits: the chunk is counted and scattered into `wavBuf`. -/
def Saving.fill (saving : Saving) : Saving :=
  let counted := { saving with nb := saving.nb + saving.readTotal }
  let limit := saving.readTotal / 2
  match fillLoop chMask nPt limit (limit + 1) saving.iP 0 with
  | none => { counted with status := .hung }
  | some (iP, copies) =>
    Saving.next
      { counted with
        iP := iP
        stored := saving.stored ++ copies.map fun copy =>
          ⟨copy, saving.readTotal, ibufsd saving.ibuf copy.i⟩ }

/-- One round. A `select` that times out ends the program. -/
def Saving.step (saving : Saving) (wait : Wait) : Saving :=
  match saving.status with
  | .receiving =>
    if wait = .timedOut then { saving with status := .exited }
    else
      let after := saving.take wait
      if Ends after.readTotal wait then after.fill chMask nPt else after
  | _ => saving

end Steps

/-! ### A stream of bytes, cut into reads -/

/-- Some bytes of a stream. -/
def slice (stream : Nat → BitVec 8) (first count : Nat) : List (BitVec 8) :=
  (List.range count).map fun i => stream (first + i)

/-- A `select` is interrupted, or there is one more byte than the number says. -/
def serve (stream : Nat → BitVec 8) (first : Nat) : Option Nat → Wait
  | none => .interrupted
  | some more => .read (slice stream first (more + 1))

/-- One round when the bytes of a stream come. -/
def Saving.follow (chMask : BitVec 32) (nPt : Nat) (stream : Nat → BitVec 8) (saving : Saving)
    (round : Option Nat) : Saving :=
  saving.step chMask nPt (serve stream (saving.nb + saving.readTotal) round)

section Slices

variable (stream : Nat → BitVec 8) (first count more : Nat)

@[simp] theorem length_slice : (slice stream first count).length = count := by
  rw [slice, List.length_map, List.length_range]

theorem slice_append :
    slice stream first count ++ slice stream (first + count) more =
      slice stream first (count + more) := by
  simp only [slice, List.range_add, List.map_append, List.map_map, Function.comp_def, Nat.add_assoc]

theorem take_slice (room : Nat) :
    (slice stream first count).take room = slice stream first (min room count) := by
  rw [slice, ← List.map_take, List.take_range]
  rfl

theorem drop_slice (skipped : Nat) :
    (slice stream first count).drop skipped = slice stream (first + skipped) (count - skipped) := by
  refine List.ext_getElem (by simp) fun i _ _ => ?_
  simp only [slice, List.getElem_drop, List.getElem_map, List.getElem_range, Nat.add_assoc]

end Slices

/-- The low byte of a sample comes first. -/
theorem ibufsd_slice (stream : Nat → BitVec 8) (first : Nat) {count i : Nat}
    (inside : 2 * i + 2 ≤ count) :
    ibufsd (slice stream first count) i =
      stream (first + 2 * i + 1) ++ stream (first + 2 * i) := by
  have two : min 2 (count - 2 * i) = 2 := Nat.min_eq_left (by omega)
  rw [ibufsd, drop_slice, take_slice, two]
  show ((0 : BitVec 16) <<< 8 ||| (stream (first + 2 * i + 1)).setWidth 16) <<< 8 |||
    (stream (first + 2 * i)).setWidth 16 = _
  ext bit small
  rw [BitVec.getElem_append]
  split_ifs with low
  · simp [low]
  · have high : (stream (first + 2 * i)).getLsbD bit = false :=
      BitVec.getLsbD_of_ge _ _ (Nat.le_of_not_lt low)
    simp [low, high, BitVec.getLsbD_eq_getElem (show bit - 8 < 8 by omega)]

/-! ### Whole chunks -/

/-- A cell and a sample of every copy. -/
def Saving.written (saving : Saving) : List (Nat × BitVec 16) :=
  saving.stored.map fun store => (store.copy.cell, store.sample)

/-- So many whole chunks of a stream are in `wavBuf`. -/
structure Scattered (chMask : BitVec 32) (nPt : Nat) (stream : Nat → BitVec 8) (chunks : Nat)
    (saving : Saving) : Prop where
  nb : saving.nb = chunks * nbask
  iP : saving.iP = chunks * (nbask / 2 / (masked chMask).length)
  written : saving.written = rows nPt (masked chMask).length 0 (slice stream 0 saving.nb) saving.iP
  length : saving.ibuf.length = nbask

/-- What the function has done when it waits for a chunk, or for no more of them. -/
inductive Follows (chMask : BitVec 32) (nPt : Nat) (stream : Nat → BitVec 8) (saving : Saving) :
    Prop where
  | receiving {chunks : Nat} (scattered : Scattered chMask nPt stream chunks saving)
      (status : saving.status = .receiving) (more : saving.nb < memoryBytes)
      (requests : saving.requests = chunks + 1) (room : saving.readTotal < nbask)
      (came : saving.ibuf.take saving.readTotal = slice stream saving.nb saving.readTotal)
  | finished {chunks : Nat} (scattered : Scattered chMask nPt stream chunks saving)
      (status : saving.status = .finished) (all : saving.nb = memoryBytes)
      (requests : saving.requests = chunks)

section Whole

variable {chMask : BitVec 32} (nPt : Nat) {stream : Nat → BitVec 8}

/-- The memory is whole chunks, so there is room for one more of them. -/
theorem Scattered.room {saving : Saving} {chunks : Nat}
    (scattered : Scattered chMask nPt stream chunks saving) (more : saving.nb < memoryBytes) :
    saving.nb + nbask ≤ memoryBytes := by
  have counted : saving.nb = chunks * 131072 := scattered.nb
  have missing : saving.nb < 8192 * 131072 := more
  show saving.nb + 131072 ≤ 8192 * 131072
  omega

/-- The head of the loop, when so many chunks were asked for and have come. -/
theorem Follows.next {saving : Saving} {chunks : Nat}
    (scattered : Scattered chMask nPt stream chunks saving) (requests : saving.requests = chunks)
    (within : saving.nb ≤ memoryBytes) : Follows chMask nPt stream saving.next := by
  obtain ⟨nb, iP, written, length⟩ := scattered
  unfold Saving.next
  split_ifs with more
  · exact .receiving ⟨nb, iP, written, length⟩ rfl more (congrArg (· + 1) requests)
      (by decide : 0 < nbask) rfl
  · exact .finished ⟨nb, iP, written, length⟩ rfl
      (Nat.le_antisymm within (Nat.le_of_not_lt more)) requests

/-- A whole chunk is scattered into the rows behind those that are filled. -/
theorem Follows.fill {saving : Saving} {chunks : Nat}
    (channels : 0 < (masked chMask).length)
    (whole : nbask / 2 / (masked chMask).length * (masked chMask).length * 2 = nbask)
    (scattered : Scattered chMask nPt stream chunks saving)
    (requests : saving.requests = chunks + 1) (within : saving.nb + nbask ≤ memoryBytes)
    (readTotal : saving.readTotal = nbask) (came : saving.ibuf = slice stream saving.nb nbask) :
    Follows chMask nPt stream (saving.fill chMask nPt) := by
  obtain ⟨nb, iP, written, length⟩ := scattered
  set perChunk := nbask / 2 / (masked chMask).length with size
  have limit : nbask / 2 = 0 + perChunk * (masked chMask).length := by
    rw [← whole, Nat.mul_div_cancel _ (by decide), Nat.zero_add]
  have filled := fillLoop_eq chMask nPt channels
    (Nat.lt_succ_of_le (Nat.div_le_self (nbask / 2) (masked chMask).length)) saving.iP 0
  rw [← size, ← limit] at filled
  have samples : (slice stream 0 saving.nb).length = 2 * (saving.iP * (masked chMask).length) := by
    rw [length_slice, nb, iP, Nat.mul_assoc, ← Nat.mul_left_comm, Nat.mul_comm 2, whole]
  have one : ∀ m, (chunks + 1) * m = chunks * m + m := fun m => Nat.succ_mul chunks m
  rw [Saving.fill, readTotal, filled]
  refine Follows.next nPt ⟨?_, ?_, ?_, length⟩ requests within
  · exact (congrArg (· + nbask) nb).trans (one nbask).symm
  · exact (congrArg (· + perChunk) iP).trans (one perChunk).symm
  · show List.map _ (saving.stored ++ _) = rows nPt _ 0 (slice stream 0 (saving.nb + nbask))
      (saving.iP + perChunk)
    have behind := slice_append stream 0 saving.nb nbask
    rw [Nat.zero_add] at behind
    rw [← behind, rows_append nPt 0 samples, List.map_append, ← written, Nat.zero_add, ← came]
    simp only [rows, List.map_flatMap, List.map_map, Function.comp_def, Nat.zero_add]
    rfl

/-- A read takes the next bytes of the stream, at least one and no more than there is room for. -/
theorem Saving.take_slice {saving : Saving} (length : saving.ibuf.length = nbask)
    (room : saving.readTotal < nbask)
    (came : saving.ibuf.take saving.readTotal = slice stream saving.nb saving.readTotal)
    (more : Nat) :
    ∃ size, 0 < size ∧ saving.readTotal + size ≤ nbask ∧
      ∃ ibuf : List (BitVec 8), ibuf.length = nbask ∧
        ibuf.take (saving.readTotal + size) = slice stream saving.nb (saving.readTotal + size) ∧
        saving.take (.read (slice stream (saving.nb + saving.readTotal) (more + 1))) =
          { saving with ibuf := ibuf, readTotal := saving.readTotal + size } := by
  set size := min (nbask - saving.readTotal) (more + 1) with sized
  have inside : saving.readTotal + size ≤ nbask := by omega
  refine ⟨size, by omega, inside,
    overwrite saving.ibuf saving.readTotal (slice stream (saving.nb + saving.readTotal) size),
    ?_, ?_, ?_⟩
  · rw [length_overwrite _ _ (by rwa [length_slice, length]), length]
  · have taken := take_overwrite saving.ibuf (slice stream (saving.nb + saving.readTotal) size)
      (length.symm ▸ room.le)
    rw [length_slice, came, slice_append] at taken
    exact taken
  · simp only [Saving.take, Host.take_slice, length_slice, ← sized]

/-- An interrupted `select` changes nothing. -/
theorem Follows.follow_none {saving : Saving} (follows : Follows chMask nPt stream saving)
    (receiving : saving.status = .receiving) :
    saving.follow chMask nPt stream none = saving := by
  cases follows with
  | receiving _ _ _ _ room _ =>
    have going : ¬Ends saving.readTotal .interrupted := Nat.not_le.mpr room
    simp [Saving.follow, Saving.step, receiving, serve, Saving.take, going]
  | finished _ status _ _ => cases status.symm.trans receiving

/-- One round keeps to the stream. -/
theorem Follows.follow (channels : 0 < (masked chMask).length)
    (whole : nbask / 2 / (masked chMask).length * (masked chMask).length * 2 = nbask)
    {saving : Saving} (follows : Follows chMask nPt stream saving) (round : Option Nat) :
    Follows chMask nPt stream (saving.follow chMask nPt stream round) := by
  cases follows with
  | finished scattered status all requests =>
    have done : saving.follow chMask nPt stream round = saving := by
      rw [Saving.follow, Saving.step, status]
    rw [done]
    exact .finished scattered status all requests
  | @receiving chunks scattered status more requests room came =>
    cases round with
    | none =>
      have waiting := Follows.receiving scattered status more requests room came
      rwa [waiting.follow_none nPt status]
    | some count =>
      obtain ⟨size, positive, inside, ibuf, length, front, taken⟩ :=
        Saving.take_slice scattered.length room came count
      have nonempty : slice stream (saving.nb + saving.readTotal) (count + 1) ≠ [] :=
        List.ne_nil_of_length_pos (by rw [length_slice]; exact Nat.succ_pos count)
      have scattered' : Scattered chMask nPt stream chunks
          { saving with ibuf := ibuf, readTotal := saving.readTotal + size } :=
        ⟨scattered.nb, scattered.iP, scattered.written, length⟩
      simp only [Saving.follow, Saving.step, status, serve, reduceCtorEq, if_false, taken, Ends,
        nonempty, false_or] at scattered' ⊢
      split_ifs with full
      · have last : saving.readTotal + size = nbask := Nat.le_antisymm inside full
        rw [last, ← length, List.take_length, length] at front
        exact Follows.fill nPt channels whole scattered' requests (scattered.room nPt more) last
          front
      · exact .receiving scattered' rfl more requests (Nat.lt_of_not_le full) front

/-- Before the first chunk nothing of the stream is in `wavBuf`. -/
theorem follows_start (chMask : BitVec 32) (stream : Nat → BitVec 8) {ibuf : List (BitVec 8)}
    (length : ibuf.length = nbask) : Follows chMask nPt stream (Saving.start ibuf) := by
  have empty : Scattered chMask nPt stream 0 ⟨0, 0, 0, ibuf, 0, [], .receiving⟩ :=
    ⟨(Nat.zero_mul _).symm, (Nat.zero_mul _).symm, rfl, length⟩
  exact Follows.next nPt empty rfl (Nat.zero_le memoryBytes)

/-- The function keeps to the stream for as long as it runs. -/
theorem Follows.follow_all (channels : 0 < (masked chMask).length)
    (whole : nbask / 2 / (masked chMask).length * (masked chMask).length * 2 = nbask)
    {saving : Saving} (follows : Follows chMask nPt stream saving) (rounds : List (Option Nat)) :
    Follows chMask nPt stream (run (Saving.follow chMask nPt stream) saving rounds) :=
  run_always (Follows chMask nPt stream)
    (fun _ round kept => kept.follow nPt channels whole round) follows rounds

end Whole

/-! ### Chunks that come in one read -/

/-- What lasts from chunk to chunk. -/
def Saving.reading (saving : Saving) : Reading := ⟨saving.nb, saving.iP, saving.written⟩

/-- The function asks for a chunk, or there are no more. -/
def Saving.AtHead (saving : Saving) : Prop :=
  saving.nb < memoryBytes ∧ saving.status = .receiving ∧ saving.readTotal = 0 ∨
    ¬saving.nb < memoryBytes ∧ saving.status = .finished

theorem Saving.atHead_next (saving : Saving) :
    saving.next.AtHead ∧ saving.next.reading = saving.reading ∧ saving.next.ibuf = saving.ibuf := by
  unfold Saving.next
  split_ifs with more
  · exact ⟨.inl ⟨more, rfl, rfl⟩, rfl, rfl⟩
  · exact ⟨.inr ⟨more, rfl⟩, rfl, rfl⟩

theorem Saving.run_of_finished {chMask : BitVec 32} {nPt : Nat} {saving : Saving}
    (finished : saving.status = .finished) (waits : List Wait) :
    run (Saving.step chMask nPt) saving waits = saving :=
  run_always (· = saving) (fun _ wait same => by rw [same, Saving.step, finished]) rfl waits

/-- A chunk that comes in one read is counted and scattered at once. -/
theorem Saving.step_chunk {chMask : BitVec 32} {nPt : Nat} {saving : Saving}
    {ibuf : List (BitVec 8)} (status : saving.status = .receiving)
    (readTotal : saving.readTotal = 0)
    (length : saving.ibuf.length = nbask) (full : ibuf.length = nbask) {after : Nat × List Copy}
    (filled : fillLoop chMask nPt (nbask / 2) (nbask / 2 + 1) saving.iP 0 = some after) :
    let next := saving.step chMask nPt (.read ibuf)
    next.AtHead ∧ next.ibuf = ibuf ∧
      next.reading = ⟨saving.nb + nbask, after.1, saving.written ++
        after.2.map fun copy => (copy.cell, ibufsd ibuf copy.i)⟩ := by
  have taken : saving.take (.read ibuf) = { saving with ibuf := ibuf, readTotal := nbask } := by
    simp [Saving.take, readTotal, overwrite, ← full, full.trans length.symm]
  have ends : Ends nbask (.read ibuf) := .inr le_rfl
  simp only [Saving.step, status, reduceCtorEq, if_false, taken, ends, if_true, Saving.fill, filled]
  obtain ⟨atHead, same, buffer⟩ := Saving.atHead_next
    { saving with
      nb := saving.nb + nbask
      iP := after.1
      readTotal := nbask
      ibuf := ibuf
      stored := saving.stored ++ after.2.map fun copy => ⟨copy, nbask, ibufsd ibuf copy.i⟩ }
  rw [status] at atHead same buffer
  refine ⟨atHead, buffer, same.trans ?_⟩
  simp only [Saving.reading, Saving.written, List.map_append, List.map_map, Function.comp_def]

/-- The rounds refine the loop over whole chunks. -/
theorem Saving.readSave_run (chMask : BitVec 32) (nPt : Nat) {chunks : List (List (BitVec 8))}
    (full : ∀ ibuf ∈ chunks, ibuf.length = nbask) {saving : Saving} (head : saving.AtHead)
    (length : saving.ibuf.length = nbask) {reading : Reading}
    (read : readSave (nbask / 2 + 1) chMask nPt saving.reading chunks = some reading) :
    (run (Saving.step chMask nPt) saving (chunks.map .read)).reading = reading := by
  induction chunks generalizing saving with
  | nil => exact Option.some.inj read
  | cons ibuf rest inductionHypothesis =>
    obtain ⟨first, later⟩ := List.forall_mem_cons.mp full
    rcases head with ⟨more, status, readTotal⟩ | ⟨whole, status⟩
    · rw [readSave, if_pos (show saving.reading.nb < scopeNch * scopeMemLengthMax * 2 from more),
        Option.bind_eq_some_iff] at read
      obtain ⟨after, filled, continued⟩ := read
      rw [first] at filled continued
      obtain ⟨atHead, buffer, same⟩ := Saving.step_chunk status readTotal length first filled
      rw [List.map_cons, run_cons]
      exact inductionHypothesis later atHead (buffer.symm ▸ first) (same ▸ continued)
    · rw [readSave, if_neg (show ¬saving.reading.nb < scopeNch * scopeMemLengthMax * 2 from whole)]
        at read
      rw [Saving.run_of_finished status]
      exact Option.some.inj read

/-! ### The whole memory -/

section Memory

variable {chMask : BitVec 32}

theorem Saving.nb_fill (nPt : Nat) (saving : Saving) :
    (saving.fill chMask nPt).nb = saving.nb + saving.readTotal := by
  simp only [Saving.fill]
  split
  · rfl
  · unfold Saving.next
    split_ifs <;> rfl

/-- The bytes that are still to come get fewer with every read. -/
theorem Follows.fewer (nPt : Nat) {stream : Nat → BitVec 8} {saving : Saving}
    (follows : Follows chMask nPt stream saving) (receiving : saving.status = .receiving)
    (more : Nat) :
    let after := saving.follow chMask nPt stream (some more)
    memoryBytes - (after.nb + after.readTotal) < memoryBytes - (saving.nb + saving.readTotal) := by
  cases follows with
  | finished _ status _ _ => cases status.symm.trans receiving
  | @receiving chunks scattered status within requests room came =>
    have left : saving.nb + saving.readTotal < memoryBytes :=
      (Nat.add_lt_add_left room _).trans_le (scattered.room nPt within)
    obtain ⟨size, positive, _, ibuf, _, _, taken⟩ :=
      Saving.take_slice scattered.length room came more
    simp only [Saving.follow, Saving.step, receiving, serve, reduceCtorEq, if_false, taken]
    split_ifs
    · rw [Saving.nb_fill]
      dsimp only
      omega
    · dsimp only
      omega

/-- With reads again and again the function finishes. -/
theorem Follows.finishes (nPt : Nat) {stream : Nat → BitVec 8}
    (channels : 0 < (masked chMask).length)
    (whole : nbask / 2 / (masked chMask).length * (masked chMask).length * 2 = nbask)
    {saving : Saving} (follows : Follows chMask nPt stream saving) {rounds : Nat → Option Nat}
    (reads : ∀ n, ∃ m, n ≤ m ∧ rounds m ≠ none) :
    ∃ k, (run (Saving.follow chMask nPt stream) saving (upTo rounds k)).status = .finished := by
  set before : Nat → Saving := fun k =>
    run (Saving.follow chMask nPt stream) saving (upTo rounds k) with runs
  have next : ∀ k, before (k + 1) = (before k).follow chMask nPt stream (rounds k) := by
    intro k
    rw [runs]
    simp only [upTo_succ, run_concat]
  have keeps : ∀ k, Follows chMask nPt stream (before k) := fun k =>
    follows.follow_all nPt channels whole (upTo rounds k)
  refine exists_goal (fun k => memoryBytes - ((before k).nb + (before k).readTotal))
    (fun k unfinished => ?_) 0
  have receiving : (before k).status = .receiving := by
    cases keeps k with
    | receiving _ status _ _ _ _ => exact status
    | finished _ status _ _ => exact absurd status unfinished
  -- Interruptions leave the state as it is, up to the next read.
  obtain ⟨m, later, same, read⟩ := exists_waiting_event (fun m => before m = before k) rfl
    (fun m same interrupted => by
      rw [next, of_not_not interrupted, (keeps m).follow_none _ (same ▸ receiving), same])
    (reads k)
  obtain ⟨more, round⟩ := Option.ne_none_iff_exists'.mp read
  refine ⟨m + 1, ?_⟩
  have fewer := (keeps k).fewer _ receiving more
  rw [next, same, round]
  exact fewer

/-- The chunks that follow each other fill the rows of `wavBuf`. -/
theorem chunks_fill {n : Nat} (count : n = 1 ∨ n = 4 ∨ n = 8 ∨ n = 16) {chunks : Nat}
    (all : chunks * nbask = memoryBytes) :
    chunks * (nbask / 2 / n) = scopeMemLengthMax * (scopeNch / n) := by
  have number : chunks = 8192 := Nat.eq_of_mul_eq_mul_right (by decide : 0 < nbask) all
  rw [number]
  rcases count with rfl | rfl | rfl | rfl <;> rfl

/-- The rows of `wavBuf` have room for the memory. -/
theorem rows_memory {n : Nat} (count : n = 1 ∨ n = 4 ∨ n = 8 ∨ n = 16) :
    scopeMemLengthMax * (scopeNch / n) * n * 2 = memoryBytes := by
  rcases count with rfl | rfl | rfl | rfl <;> rfl

/-- The sample of a channel and point is two bytes of the memory. -/
theorem sample_inside (count : nCh chMask = 1 ∨ nCh chMask = 4 ∨ nCh chMask = 8 ∨ nCh chMask = 16)
    {j p : Nat} (channel : j < nCh chMask) (point : p < nPt chMask) :
    2 * (p * nCh chMask + j) + 2 ≤ memoryBytes := by
  have bytes : nPt chMask * nCh chMask * 2 = memoryBytes := rows_memory count
  have row := Nat.mul_le_mul_right (nCh chMask) point
  rw [Nat.succ_mul] at row
  omega

/-- When the function has finished, all chunks were asked for and the rows are written. -/
theorem Follows.all_written {stream : Nat → BitVec 8}
    (count : nCh chMask = 1 ∨ nCh chMask = 4 ∨ nCh chMask = 8 ∨ nCh chMask = 16)
    (channelCount : (masked chMask).length = nCh chMask) {saving : Saving}
    (follows : Follows chMask (nPt chMask) stream saving) (finished : saving.status = .finished) :
    saving.requests * nbask = memoryBytes ∧
      saving.written =
        rows (nPt chMask) (nCh chMask) 0 (slice stream 0 memoryBytes) (nPt chMask) := by
  cases follows with
  | receiving _ status _ _ _ _ => cases status.symm.trans finished
  | finished scattered _ all requests =>
    have chunks := scattered.nb.symm.trans all
    have points : saving.iP = nPt chMask := by
      rw [scattered.iP, channelCount, nPt]
      exact chunks_fill count chunks
    refine ⟨by rw [requests, chunks], ?_⟩
    rw [scattered.written, points, channelCount, all]

/-- With nothing but reads and interruptions the function asks for as many chunks as the memory
has, and every cell of `wavBuf` is written once, with the sample of its channel and point. -/
theorem readSave_transposes (low : chMask < 0x10000)
    (count : nCh chMask = 1 ∨ nCh chMask = 4 ∨ nCh chMask = 8 ∨ nCh chMask = 16)
    (stream : Nat → BitVec 8) {rounds : Nat → Option Nat}
    (reads : ∀ n, ∃ m, n ≤ m ∧ rounds m ≠ none) {ibuf : List (BitVec 8)}
    (length : ibuf.length = nbask) (wavBuf : Nat → BitVec 16) :
    ∃ k, let after :=
        run (Saving.follow chMask (nPt chMask) stream) (Saving.start ibuf) (upTo rounds k)
      after.status = .finished ∧ after.requests * nbask = memoryBytes ∧
        (after.stored.map fun store => store.copy.cell).Perm
          (List.range (nCh chMask * nPt chMask)) ∧
        ∀ j < nCh chMask, ∀ p < nPt chMask,
          writeAll wavBuf after.written (j * nPt chMask + p) =
            stream (2 * (p * nCh chMask + j) + 1) ++ stream (2 * (p * nCh chMask + j)) := by
  have channelCount : (masked chMask).length = nCh chMask := by
    rw [masked_eq chMask fun c member => lt_of_mem_setBits (n := 16) low member, nCh_eq]
  obtain ⟨positive, whole, _⟩ := chunk_sizes count
  rw [← channelCount] at positive whole
  have start : Follows chMask (nPt chMask) stream (Saving.start ibuf) :=
    follows_start _ chMask stream length
  obtain ⟨k, finished⟩ := start.finishes _ positive whole reads
  have keeps := start.follow_all _ positive whole (upTo rounds k)
  obtain ⟨requests, written⟩ := keeps.all_written count channelCount finished
  refine ⟨k, finished, requests, ?_, fun j channel p point => ?_⟩
  · have cells := rows_cells (nPt chMask) (nCh chMask) (slice stream 0 memoryBytes)
    rwa [← written, Saving.written, List.map_map] at cells
  · have inside := sample_inside count channel point
    rw [written, writeAll_rows wavBuf _ _ _ le_rfl channel point, ibufsd_slice stream 0 inside,
      Nat.zero_add]

/-- Four channels, with every other `select` interrupted and reads of 1448 bytes. -/
theorem four_channels_transposed :
    ∃ k, let after :=
        run (Saving.follow 0x000f (nPt 0x000f) (BitVec.ofNat 8))
          (Saving.start (List.replicate nbask 0))
          (upTo (fun k => if k % 2 = 0 then none else some 1447) k)
      after.status = .finished ∧ after.requests = 8192 ∧
        writeAll (fun _ => 0) after.written (1 * nPt 0x000f + 2) = 0x1312 := by
  have reads : ∀ n, ∃ m, n ≤ m ∧ (if m % 2 = 0 then none else some 1447) ≠ none := fun n =>
    ⟨2 * n + 1, by omega, by rw [if_neg (by omega)]; exact Option.some_ne_none 1447⟩
  obtain ⟨k, finished, requests, _, cells⟩ :=
    readSave_transposes (show (0x000f : BitVec 32) < 0x10000 by decide) (by decide)
      (BitVec.ofNat 8) reads
      (List.length_replicate (n := nbask) (a := 0)) fun _ => 0
  refine ⟨k, finished, ?_, cells 1 (by decide) 2 (by decide)⟩
  exact Nat.eq_of_mul_eq_mul_right (by decide : 0 < nbask) requests

end Memory

end K71GbE.Host
