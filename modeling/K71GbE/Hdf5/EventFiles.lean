/-
This file proves what event files are for: the events written to one are read
back from it, and when the calls that write them are atomic.

While a chunk's columns can be counted in 64 bits, the rectangles of different
events are apart, so a run of writes that all succeed stores every event.
-/

import K71GbE.Hdf5.Writing

namespace K71GbE

open Clocked Hdf5

namespace WaveformFile

/-- A new file with its header. -/
def created (nWfmPerChunk nCh : UInt64) (wavAttr : WaveformAttribute) : WaveformFile :=
  ((openFile nWfmPerChunk nCh).writeWaveformAttributeInFileHeader wavAttr).1

section Created

variable (nWfmPerChunk nCh : UInt64) (wavAttr : WaveformAttribute)

theorem chunk_created (eventId : UInt64) :
    (created nWfmPerChunk nCh wavAttr).chunk eventId = none := rfl

theorem uniform_created : (created nWfmPerChunk nCh wavAttr).Uniform := nofun

end Created

/-! ### Rectangles that do not wrap -/

section Layout

variable {start : WaveformFile} (positive : 0 < start.nWfmPerChunk)
  (roomy : start.nPt.toNat * start.nWfmPerChunk.toNat < 2 ^ 64)

include positive in
theorem toNat_inChunkId_lt (eventId : UInt64) :
    (start.inChunkId eventId).toNat < start.nWfmPerChunk.toNat := by
  rw [inChunkId, UInt64.toNat_mod]
  exact Nat.mod_lt _ (UInt64.lt_iff_toNat_lt.mp positive)

include roomy in
theorem columns_eq :
    (start.nPt * start.nWfmPerChunk).toNat = start.nPt.toNat * start.nWfmPerChunk.toNat := by
  rw [UInt64.toNat_mul, Nat.mod_eq_of_lt roomy]

include positive roomy in
theorem column_eq (eventId : UInt64) :
    (start.slab eventId).column = start.nPt.toNat * (start.inChunkId eventId).toNat := by
  have below := Nat.mul_le_mul_left start.nPt.toNat (toNat_inChunkId_lt positive eventId).le
  rw [slab, UInt64.toNat_mul, Nat.mul_comm]
  exact Nat.mod_eq_of_lt (lt_of_le_of_lt below roomy)

include positive roomy in
theorem fits_of_roomy (eventId : UInt64) : start.Fits eventId := by
  have column := column_eq positive roomy eventId
  rw [Fits, columns_eq roomy]
  calc (start.inChunkId eventId * start.nPt).toNat + start.nPt.toNat
      = start.nPt.toNat * ((start.inChunkId eventId).toNat + 1) := by
        rw [show (start.inChunkId eventId * start.nPt).toNat =
          start.nPt.toNat * (start.inChunkId eventId).toNat from column, Nat.mul_succ]
    _ ≤ start.nPt.toNat * start.nWfmPerChunk.toNat :=
        Nat.mul_le_mul_left _ (toNat_inChunkId_lt positive eventId)

include positive roomy in
/-- Events of one chunk are apart in the order of their places in it. -/
theorem apart_of_lt {first second : UInt64}
    (order : (start.inChunkId first).toNat < (start.inChunkId second).toNat) :
    (start.slab first).Apart (start.slab second) := by
  refine Slab.apart_of_columns ?_
  rw [column_eq positive roomy, column_eq positive roomy]
  exact Nat.mul_le_mul_left start.nPt.toNat order

/-- An identifier is told by its chunk and its place in it. -/
theorem eventId_eq {first second : UInt64}
    (chunk : start.chunkId first = start.chunkId second)
    (place : (start.inChunkId first).toNat = (start.inChunkId second).toNat) :
    first = second := by
  have quotient := congrArg UInt64.toNat chunk
  rw [chunkId, chunkId, UInt64.toNat_div, UInt64.toNat_div] at quotient
  rw [inChunkId, inChunkId, UInt64.toNat_mod, UInt64.toNat_mod] at place
  refine UInt64.toNat_inj.mp ?_
  rw [← Nat.div_add_mod first.toNat start.nWfmPerChunk.toNat, quotient, place, Nat.div_add_mod]

include positive roomy in
/-- Different events are in different chunks or apart. -/
theorem elsewhere_of_ne {first second : UInt64} (differs : first ≠ second) :
    start.chunkId first ≠ start.chunkId second ∨
      (start.slab first).Apart (start.slab second) := by
  by_cases chunk : start.chunkId first = start.chunkId second
  · right
    rcases Nat.lt_trichotomy (start.inChunkId first).toNat (start.inChunkId second).toNat with
      order | place | order
    · exact apart_of_lt positive roomy order
    · exact absurd (eventId_eq chunk place) differs
    · exact (apart_of_lt positive roomy order).symm
  · exact Or.inl chunk

/-- The first event of a chunk has the least identifier in it. -/
theorem chunkId_ne_of_first {earlier call : UInt64} (order : earlier < call)
    (first : start.inChunkId call = 0) : start.chunkId earlier ≠ start.chunkId call := by
  intro chunk
  have quotient := congrArg UInt64.toNat chunk
  have place := congrArg UInt64.toNat first
  rw [chunkId, chunkId, UInt64.toNat_div, UInt64.toNat_div] at quotient
  rw [inChunkId, UInt64.toNat_mod] at place
  have whole := Nat.div_add_mod call.toNat start.nWfmPerChunk.toNat
  rw [place, ← quotient] at whole
  have below := Nat.div_mul_le_self earlier.toNat start.nWfmPerChunk.toNat
  have less := UInt64.lt_iff_toNat_lt.mp order
  rw [Nat.mul_comm] at below
  exact absurd (whole ▸ below) (Nat.not_le.mpr less)

end Layout

/-- What a run of writes that all succeed has stored. -/
theorem stored_run {start : WaveformFile} (uniform : start.Uniform) {calls : List WaveformEvent}
    (succeed : AllSucceed start calls)
    (full : ∀ call ∈ calls, call.wavBuf.length = (start.slab call.eventId).size)
    (elsewhere : calls.Pairwise fun earlier call =>
      start.chunkId call.eventId ≠ start.chunkId earlier.eventId ∨
        (start.slab call.eventId).Apart (start.slab earlier.eventId)) :
    ∀ call ∈ calls, (run write start calls).Stored call := by
  induction calls using List.reverseRecOn with
  | nil => exact fun _ member => absurd member List.not_mem_nil
  | append_singleton seen last inductionHypothesis =>
    obtain ⟨before, succeeds⟩ := (along_concat _ _ _ seen last).mp succeed
    obtain ⟨among, -, apart⟩ := List.pairwise_append.mp elsewhere
    have unchanged := uniform_run seen uniform
    rw [run_concat]
    intro call member
    rcases List.mem_append.mp member with earlier | here
    · have stored := inductionHypothesis before
        (fun call member => full call (List.mem_append_left _ member)) among call earlier
      refine stored.write unchanged succeeds ?_
      rw [chunkId_run, chunkId_run, slab_run, slab_run]
      exact apart call earlier last (List.mem_singleton_self last)
    · rw [List.mem_singleton.mp here]
      refine unchanged.stored succeeds ?_
      rw [slab_run]
      exact full last (List.mem_append_right _ (List.mem_singleton_self last))

/-! ### The round trip -/

/-- The file after `flush_file`, `close_file`, `open_file_for_read` and a read of the header. -/
def reopened (wavFile : WaveformFile) (room : WaveformAttribute) :
    WaveformFile × WaveformAttribute × Int :=
  (openFileForRead wavFile.flushFile.1.closeFile.1).readWaveformAttributeInFileHeader room

/-- What is written to a new file is read back from it. -/
structure RoundTrips (nWfmPerChunk nCh : UInt64) (wavAttr : WaveformAttribute)
    (events : List WaveformEvent) : Prop where
  headerWritten : ((openFile nWfmPerChunk nCh).writeWaveformAttributeInFileHeader wavAttr).2 = 0
  succeed : AllSucceed (created nWfmPerChunk nCh wavAttr) events
  inside : ∀ event ∈ events, ∃ dataset,
    (run write (created nWfmPerChunk nCh wavAttr) events).chunk event.eventId = some dataset ∧
      dataset.Holds ((created nWfmPerChunk nCh wavAttr).slab event.eventId)
  apart : ∀ first ∈ events, ∀ second ∈ events, first.eventId ≠ second.eventId →
    (created nWfmPerChunk nCh wavAttr).chunkName first.eventId ≠
        (created nWfmPerChunk nCh wavAttr).chunkName second.eventId ∨
      ((created nWfmPerChunk nCh wavAttr).slab first.eventId).Apart
        ((created nWfmPerChunk nCh wavAttr).slab second.eventId)
  headerBack : ∀ room,
    (reopened (run write (created nWfmPerChunk nCh wavAttr) events) room).2 = (wavAttr, 0)
  count : ∀ room,
    (reopened (run write (created nWfmPerChunk nCh wavAttr) events) room).1.getNumberOfEvents.toNat
      = events.length
  back : ∀ event ∈ events, ∀ room wavBuf, wavBuf.length = nCh.toNat * wavAttr.nPt.toNat →
    (reopened (run write (created nWfmPerChunk nCh wavAttr) events) room).1.readEvent
      ⟨event.eventId, wavBuf⟩ = (event.wavBuf, 0)

section RoundTrip

variable {nWfmPerChunk nCh : UInt64} {wavAttr : WaveformAttribute} {events : List WaveformEvent}

/-- The sizes in the record are those in the file. -/
def Agrees (wavAttr : WaveformAttribute) (wavFile : WaveformFile) : Prop :=
  wavFile.waveFid.nCh = wavFile.nCh ∧ wavFile.waveFid.nWfmPerChunk = wavFile.nWfmPerChunk ∧
    wavFile.waveFid.waveformAttributes = some wavAttr ∧ wavFile.nPt = wavAttr.nPt

theorem agrees_run : Agrees wavAttr (run write (created nWfmPerChunk nCh wavAttr) events) := by
  have kept : ∀ (file : WaveformFile) (call : WaveformEvent), Agrees wavAttr file →
      Agrees wavAttr (file.write call) := fun _ _ agrees => agrees
  exact run_always _ kept ⟨rfl, rfl, rfl, rfl⟩ events

/-- Reopened, a file is what it was when it was flushed. -/
theorem Agrees.reopened_eq {wavFile : WaveformFile} (agrees : Agrees wavAttr wavFile)
    (room : WaveformAttribute) : reopened wavFile room = (wavFile.flushFile.1, wavAttr, 0) := by
  obtain ⟨channels, chunks, stored, points⟩ := agrees
  have found : (openFileForRead wavFile.flushFile.1.closeFile.1).waveFid.waveformAttributes =
      some wavAttr := stored
  simp only [reopened, readWaveformAttributeInFileHeader, found]
  simp only [openFileForRead, flushFile, closeFile, channels, chunks, points]

theorem Stored.flushFile {wavFile : WaveformFile} {wavEvent : WaveformEvent}
    (stored : wavFile.Stored wavEvent) : wavFile.flushFile.1.Stored wavEvent := stored

theorem size_run (eventId : UInt64) :
    ((run write (created nWfmPerChunk nCh wavAttr) events).slab eventId).size =
      nCh.toNat * wavAttr.nPt.toNat :=
  congrArg Slab.size (slab_run events eventId)

/-- Events written in the order of their identifiers come back from the file, as long as the
columns of a chunk and the events can be counted in 64 bits. -/
theorem round_trips (positive : 0 < nWfmPerChunk)
    (roomy : wavAttr.nPt.toNat * nWfmPerChunk.toNat < 2 ^ 64)
    (increasing : events.Pairwise fun first second => first.eventId < second.eventId)
    (full : ∀ event ∈ events, event.wavBuf.length = nCh.toNat * wavAttr.nPt.toNat)
    (few : events.length < 2 ^ 64) : RoundTrips nWfmPerChunk nCh wavAttr events := by
  have uniform := uniform_created nWfmPerChunk nCh wavAttr
  have succeed : AllSucceed (created nWfmPerChunk nCh wavAttr) events :=
    (allSucceed_iff events uniform (chunk_created _ _ _)).mpr
      ⟨fun event _ => fits_of_roomy positive roomy event.eventId,
        increasing.imp fun order first => chunkId_ne_of_first order first⟩
  have stored := stored_run uniform succeed full
    (increasing.imp fun order => elsewhere_of_ne positive roomy fun same => by
      rw [same] at order
      exact absurd order (UInt64.lt_irrefl _))
  refine ⟨rfl, succeed, fun event member => ?_, fun first _ second _ differs => ?_, fun room => ?_,
    fun room => ?_, fun event member room wavBuf long => ?_⟩
  · obtain ⟨dataset, found, holds, -⟩ := stored event member
    exact ⟨dataset, found, slab_run events event.eventId ▸ holds⟩
  · exact (elsewhere_of_ne positive roomy differs).imp_left fun chunk same =>
      chunk (chunkName_inj.mp same)
  · rw [agrees_run.reopened_eq room]
  · rw [agrees_run.reopened_eq room]
    show (run write (created nWfmPerChunk nCh wavAttr) events).nEvents.toNat = events.length
    have zeroEvents : (created nWfmPerChunk nCh wavAttr).nEvents = 0 := rfl
    rw [nEvents_run, zeroEvents, UInt64.zero_add, UInt64.toNat_ofNat', Nat.mod_eq_of_lt few]
  · rw [agrees_run.reopened_eq room]
    exact (stored event member).flushFile.readEvent (long.trans (size_run event.eventId).symm)

/-- A header of records of one size. -/
def plainAttribute (nPt : UInt64) : WaveformAttribute :=
  ⟨10, nPt, 0, 0, 0, .replicate _ 0, .replicate _ 0, .replicate _ 0⟩

/-- The identifiers of the test at the end of the source, four events a chunk. -/
theorem round_trips_test :
    RoundTrips 4 2 (plainAttribute 1)
      [⟨0, [1, 2]⟩, ⟨1, [3, 4]⟩, ⟨4, [5, 6]⟩, ⟨8, [7, 8]⟩, ⟨9, [9, 10]⟩] :=
  round_trips (by decide) (by decide) (by decide) (by decide) (by decide)

/-- A chunk of `2 ^ 63` events of two columns has no column left. -/
theorem wide_chunk_fails :
    (0 : UInt64) < 2 ^ 63 ∧ (0 : UInt64) < 1 ∧ 0 < (plainAttribute 2).nPt ∧
      ([7, 8] : List ScopeData).length = (1 : UInt64).toNat * (plainAttribute 2).nPt.toNat ∧
      ¬RoundTrips (2 ^ 63) 1 (plainAttribute 2) [⟨0, [7, 8]⟩] := by
  refine ⟨by decide +kernel, by decide, by decide, by decide, fun trips => ?_⟩
  have fits := ((allSucceed_iff _ (uniform_created _ _ _) (chunk_created _ _ _)).mp
    trips.succeed).1 ⟨0, [7, 8]⟩ (List.mem_singleton_self _)
  revert fits
  decide +kernel

end RoundTrip

/-! ### Atomic writes -/

/-- The calls that succeeded. -/
def succeeded (start : WaveformFile) (calls : List WaveformEvent) : Nat :=
  (log write (fun file call => [(file.writeEvent call).2]) start calls).countP (0 ≤ ·)

/-- A call of `write_event` after some others: a failure changes nothing, a success stores the
event, a new identifier does not fail, and the successes are counted. -/
structure AtomicCall (start : WaveformFile) (seen : List WaveformEvent) (call : WaveformEvent) :
    Prop where
  failure : ¬(run write start seen).Succeeds call →
    (run write start (seen ++ [call])).nEvents = (run write start seen).nEvents ∧
      ∀ event, ((run write start seen).readEvent event).2 = 0 →
        (run write start (seen ++ [call])).readEvent event =
          (run write start seen).readEvent event
  success : (run write start seen).Succeeds call →
    ∀ wavBuf, wavBuf.length = start.nCh.toNat * start.nPt.toNat →
      (run write start (seen ++ [call])).readEvent ⟨call.eventId, wavBuf⟩ = (call.wavBuf, 0)
  new : (∀ earlier ∈ seen, earlier.eventId ≠ call.eventId) →
    (run write start seen).Succeeds call
  count : (run write start (seen ++ [call])).nEvents.toNat = succeeded start (seen ++ [call])

/-- Every call of a run is atomic. -/
def Atomic (start : WaveformFile) (calls : List WaveformEvent) : Prop :=
  ∀ seen call later, calls = seen ++ call :: later → AtomicCall start seen call

/-- The first event of a chunk comes before the others and once, every event lies inside its
chunk, and the calls can be counted. -/
structure InOrder (start : WaveformFile) (calls : List WaveformEvent) : Prop where
  fits : ∀ call ∈ calls, start.Fits call.eventId
  first : calls.Pairwise fun earlier call =>
    start.inChunkId call.eventId = 0 → start.chunkId earlier.eventId ≠ start.chunkId call.eventId
  few : calls.length < 2 ^ 64

theorem succeeded_concat (start : WaveformFile) (seen : List WaveformEvent)
    (call : WaveformEvent) :
    succeeded start (seen ++ [call]) =
      succeeded start seen + if (run write start seen).Succeeds call then 1 else 0 := by
  rw [succeeded, log_concat, List.countP_append, ← succeeded, List.countP_singleton]
  simp only [decide_eq_true_eq]
  rfl

theorem AllSucceed.succeeded_eq {start : WaveformFile} {calls : List WaveformEvent}
    (succeed : AllSucceed start calls) : succeeded start calls = calls.length := by
  induction calls using List.reverseRecOn with
  | nil => rfl
  | append_singleton seen call inductionHypothesis =>
    obtain ⟨before, succeeds⟩ := (along_concat _ _ _ seen call).mp succeed
    rw [succeeded_concat, inductionHypothesis before, if_pos succeeds, List.length_append,
      List.length_singleton]

section Atomic

variable {nWfmPerChunk nCh : UInt64} {wavAttr : WaveformAttribute} {calls : List WaveformEvent}

theorem nEvents_created_run :
    (run write (created nWfmPerChunk nCh wavAttr) calls).nEvents.toNat = calls.length % 2 ^ 64 := by
  have zeroEvents : (created nWfmPerChunk nCh wavAttr).nEvents = 0 := rfl
  rw [nEvents_run, zeroEvents, UInt64.zero_add, UInt64.toNat_ofNat']

/-- A call that fails counts as an event, so in an atomic run none does. -/
theorem Atomic.allSucceed (atomic : Atomic (created nWfmPerChunk nCh wavAttr) calls) :
    AllSucceed (created nWfmPerChunk nCh wavAttr) calls := by
  refine along_iff_steps.mpr fun seen call later split => ?_
  by_contra fails
  have same := ((atomic seen call later split).failure fails).1
  rw [nEvents_run, nEvents_run, List.length_append, List.length_singleton, UInt64.ofNat_add,
    ← UInt64.add_assoc, UInt64.add_eq_left] at same
  exact absurd same (by decide)

/-- The calls are atomic exactly when they are in order. -/
theorem atomic_iff
    (full : ∀ call ∈ calls, call.wavBuf.length = nCh.toNat * wavAttr.nPt.toNat) :
    Atomic (created nWfmPerChunk nCh wavAttr) calls ↔
      InOrder (created nWfmPerChunk nCh wavAttr) calls := by
  have uniform := uniform_created nWfmPerChunk nCh wavAttr
  have succeed := allSucceed_iff calls uniform (chunk_created _ _ _)
  constructor
  · intro atomic
    obtain ⟨fits, first⟩ := succeed.mp atomic.allSucceed
    refine ⟨fits, first, ?_⟩
    rcases List.eq_nil_or_concat calls with rfl | ⟨seen, last, rfl⟩
    · exact Nat.two_pow_pos 64
    · have count := (atomic seen last [] (List.concat_eq_append)).count
      rw [nEvents_created_run, ← List.concat_eq_append, atomic.allSucceed.succeeded_eq] at count
      exact count ▸ Nat.mod_lt _ (Nat.two_pow_pos 64)
  · rintro ⟨fits, first, few⟩ seen call later rfl
    have along := succeed.mpr ⟨fits, first⟩
    obtain ⟨before, succeeds, -⟩ := (along_append _ _ _ seen (call :: later)).mp along
    have upto : AllSucceed (created nWfmPerChunk nCh wavAttr) (seen ++ [call]) :=
      (along_concat _ _ _ seen call).mpr ⟨before, succeeds⟩
    refine ⟨fun fails => absurd succeeds fails, fun _ wavBuf long => ?_, fun _ => succeeds, ?_⟩
    · have size : ((run write (created nWfmPerChunk nCh wavAttr) seen).slab call.eventId).size =
          nCh.toNat * wavAttr.nPt.toNat := size_run call.eventId
      have member := full call (List.mem_append_right _ List.mem_cons_self)
      have stored := (uniform_run seen uniform).stored succeeds (member.trans size.symm)
      rw [run_concat]
      exact stored.readEvent (long.trans size.symm)
    · rw [nEvents_created_run, upto.succeeded_eq, List.length_append, List.length_singleton]
      refine Nat.mod_eq_of_lt (lt_of_le_of_lt ?_ few)
      rw [List.length_append, List.length_cons]
      omega

end Atomic

/-- Two chunks of two, an event written twice and a chunk begun in the middle. -/
theorem atomic_of_five :
    Atomic (created 2 1 (plainAttribute 1))
      [⟨0, [1]⟩, ⟨1, [2]⟩, ⟨1, [3]⟩, ⟨5, [4]⟩, ⟨2, [5]⟩] :=
  (atomic_iff (by decide)).mpr ⟨by decide +kernel, by decide +kernel, by decide⟩

/-- The first event of a chunk fails when another one of the chunk was written before it. -/
theorem first_of_chunk_fails :
    ¬Atomic (created 2 1 (plainAttribute 1)) [⟨1, [1]⟩, ⟨0, [2]⟩] := by
  intro atomic
  have fails : ¬(run write (created 2 1 (plainAttribute 1)) [⟨1, [1]⟩]).Succeeds ⟨0, [2]⟩ := by
    decide +kernel
  exact fails ((atomic [⟨1, [1]⟩] ⟨0, [2]⟩ [] rfl).new (by decide))

end WaveformFile

end K71GbE
