/-
This file is about what one `write_event` does to an event file, and what a run of
them leaves in it.

The name and the rectangle of an event depend on its identifier and on the sizes
of the file alone. A write either clashes with a dataset that it means to create,
leaves its dataset, or puts its buffer there.
-/

import K71GbE.Clocked.Machine
import K71GbE.Hdf5.RawWaveformIo
import Mathlib

namespace K71GbE

open Clocked Hdf5

namespace WaveformFile

/-! ### Names -/

theorem length_zd (value : UInt64) : (zd value).length ≤ 20 := by
  have low := value.toBitVec.le_toInt
  have high := value.toBitVec.toInt_lt
  rw [zd, String.length_toList]
  cases shown : value.toBitVec.toInt with
  | ofNat size =>
    rw [shown, Int.ofNat_eq_natCast] at high
    exact (Nat.length_repr_le_iff (by decide)).mpr (by omega)
  | negSucc size =>
    rw [shown] at low
    have digits : (size + 1).repr.length ≤ 19 :=
      (Nat.length_repr_le_iff (by decide)).mpr (by omega)
    rw [Int.repr, String.length_append]
    have sign : "-".length = 1 := rfl
    rw [sign]
    exact Nat.add_le_add_left digits 1

/-- Different sizes are printed differently. -/
theorem zd_inj {first second : UInt64} : zd first = zd second ↔ first = second := by
  rw [zd, zd, String.toList_inj, Int.repr_inj, BitVec.toInt_inj, UInt64.toBitVec_inj]

/-- The name of the dataset of a chunk. -/
def chunkName (wavFile : WaveformFile) (eventId : UInt64) : List Char :=
  'C' :: zd (wavFile.chunkId eventId)

theorem snprintf_of_short {text : List Char} (short : text.length < nameBufSize) :
    snprintf text = text :=
  List.take_of_length_le (Nat.le_pred_of_lt short)

/-- The buffer is long enough for the name. -/
theorem atRoot_writeName (wavFile : WaveformFile) (eventId : UInt64) :
    atRoot (wavFile.writeName eventId) = wavFile.chunkName eventId := by
  have digits := length_zd (wavFile.chunkId eventId)
  rw [writeName, snprintf_of_short (by rw [nameBufSize, List.length_cons]; omega)]
  rfl

/-- `read_event` looks where `write_event` wrote. -/
theorem atRoot_readName (wavFile : WaveformFile) (eventId : UInt64) :
    atRoot (wavFile.readName eventId) = wavFile.chunkName eventId := by
  have digits := length_zd (wavFile.chunkId eventId)
  rw [readName, snprintf_of_short (by rw [nameBufSize, List.length_cons, List.length_cons]; omega)]
  rfl

theorem chunkName_inj {wavFile : WaveformFile} {first second : UInt64} :
    wavFile.chunkName first = wavFile.chunkName second ↔
      wavFile.chunkId first = wavFile.chunkId second := by
  rw [chunkName, chunkName, List.cons.injEq, zd_inj]
  exact and_iff_right rfl

/-! ### One write -/

/-- The dataset of a chunk, if it is there. -/
def chunk (wavFile : WaveformFile) (eventId : UInt64) : Option (Dataset ScopeData) :=
  wavFile.waveFid.root.dataset (wavFile.chunkName eventId)

/-- The dataset that a chunk has, or gets. -/
def base (wavFile : WaveformFile) (eventId : UInt64) : Dataset ScopeData :=
  (wavFile.chunk eventId).getD
    (.blank wavFile.nCh.toNat (wavFile.nPt * wavFile.nWfmPerChunk).toNat 0)

/-- The first event of a chunk meets a dataset that is there already. -/
def Clashes (wavFile : WaveformFile) (eventId : UInt64) : Prop :=
  wavFile.inChunkId eventId = 0 ∧ (wavFile.chunk eventId).isSome

instance (wavFile : WaveformFile) (eventId : UInt64) : Decidable (wavFile.Clashes eventId) :=
  inferInstanceAs (Decidable (_ ∧ _))

/-- The datasets once the one of a chunk is there. -/
def prepared (wavFile : WaveformFile) (eventId : UInt64) : Store (List Char) ScopeData :=
  if (wavFile.chunk eventId).isSome then wavFile.waveFid.root
  else wavFile.waveFid.root.set (wavFile.chunkName eventId) (wavFile.base eventId)

/-- The file after a write that left the datasets as given. -/
def counted (wavFile : WaveformFile) (root : Store (List Char) ScopeData) : WaveformFile :=
  { wavFile with
    waveFid := { wavFile.waveFid with root := root }
    nEvents := wavFile.nEvents + 1 }

/-- The datasets with the buffer of an event in its place. -/
def withEvent (wavFile : WaveformFile) (wavEvent : WaveformEvent) :
    Store (List Char) ScopeData :=
  wavFile.waveFid.root.set (wavFile.chunkName wavEvent.eventId)
    ((wavFile.base wavEvent.eventId).put (wavFile.slab wavEvent.eventId) wavEvent.wavBuf)

section Write

variable {wavFile : WaveformFile}

theorem dataset_prepared_self (eventId : UInt64) :
    (wavFile.prepared eventId).dataset (wavFile.chunkName eventId) =
      some (wavFile.base eventId) := by
  unfold prepared
  split_ifs with there
  · obtain ⟨dataset, found⟩ := Option.isSome_iff_exists.mp there
    rw [base, found]
    exact found
  · exact Store.dataset_set_self _ _ _

theorem set_prepared (eventId : UInt64) (dataset : Dataset ScopeData) :
    (wavFile.prepared eventId).set (wavFile.chunkName eventId) dataset =
      wavFile.waveFid.root.set (wavFile.chunkName eventId) dataset := by
  unfold prepared
  split_ifs with there
  · rfl
  · exact Store.set_set _ _ _ _

theorem writeEventCreateDataset_of_none {eventId : UInt64} (free : wavFile.chunk eventId = none) :
    wavFile.writeEventCreateDataset (wavFile.writeName eventId) =
      (wavFile.prepared eventId, some (wavFile.chunkName eventId)) := by
  rw [writeEventCreateDataset, atRoot_writeName, Store.create_of_none free, prepared,
    if_neg (by rw [free]; exact Bool.false_ne_true), base, free]
  rfl

/-- Without a clash the dataset of the chunk is open. -/
theorem chunkDataset_of_not_clashes {eventId : UInt64} (free : ¬wavFile.Clashes eventId) :
    wavFile.chunkDataset eventId =
      (wavFile.prepared eventId, some (wavFile.chunkName eventId)) := by
  cases found : wavFile.chunk eventId with
  | none =>
    have absent : wavFile.waveFid.root.find (wavFile.chunkName eventId) = none :=
      Store.find_of_none found
    simp only [chunkDataset, atRoot_writeName, absent, writeEventCreateDataset_of_none found]
    exact ite_self _
  | some dataset =>
    have later : ¬wavFile.inChunkId eventId = 0 := fun first =>
      free ⟨first, by rw [found]; rfl⟩
    have opened : wavFile.waveFid.root.find (wavFile.chunkName eventId) =
        some (wavFile.chunkName eventId) := Store.find_of_some found
    simp only [chunkDataset, atRoot_writeName, opened]
    rw [if_neg later, prepared, found]
    rfl

variable {wavEvent : WaveformEvent}

theorem writeEvent_of_clashes (clashes : wavFile.Clashes wavEvent.eventId) :
    wavFile.writeEvent wavEvent = (wavFile.counted wavFile.waveFid.root, -1) := by
  obtain ⟨dataset, found⟩ := Option.isSome_iff_exists.mp clashes.2
  have refused : wavFile.chunkDataset wavEvent.eventId = (wavFile.waveFid.root, none) := by
    unfold chunkDataset writeEventCreateDataset
    rw [if_pos clashes.1, atRoot_writeName, Store.create_of_some found]
  rw [writeEvent, refused, Store.write_invalid]
  rfl

theorem writeEvent_of_leaves (free : ¬wavFile.Clashes wavEvent.eventId)
    (leaves : ¬(wavFile.base wavEvent.eventId).Holds (wavFile.slab wavEvent.eventId)) :
    wavFile.writeEvent wavEvent =
      (wavFile.counted (wavFile.prepared wavEvent.eventId), -1) := by
  rw [writeEvent, chunkDataset_of_not_clashes free,
    Store.write_of_not_holds _ (dataset_prepared_self wavEvent.eventId) leaves]
  rfl

theorem writeEvent_of_holds (free : ¬wavFile.Clashes wavEvent.eventId)
    (holds : (wavFile.base wavEvent.eventId).Holds (wavFile.slab wavEvent.eventId)) :
    wavFile.writeEvent wavEvent = (wavFile.counted (wavFile.withEvent wavEvent), 0) := by
  rw [writeEvent, chunkDataset_of_not_clashes free,
    Store.write_of_holds _ (dataset_prepared_self wavEvent.eventId) holds, set_prepared]
  rfl

end Write

/-! ### Sizes -/

/-- The file after a write. -/
def write (wavFile : WaveformFile) (wavEvent : WaveformEvent) : WaveformFile :=
  (wavFile.writeEvent wavEvent).1

/-- Every dataset has the extent of a chunk. -/
def Uniform (wavFile : WaveformFile) : Prop :=
  ∀ name dataset, wavFile.waveFid.root.dataset name = some dataset →
    dataset.rows = wavFile.nCh.toNat ∧
      dataset.columns = (wavFile.nPt * wavFile.nWfmPerChunk).toNat

/-- The columns of an event lie inside its chunk. -/
def Fits (wavFile : WaveformFile) (eventId : UInt64) : Prop :=
  (wavFile.inChunkId eventId * wavFile.nPt).toNat + wavFile.nPt.toNat ≤
    (wavFile.nPt * wavFile.nWfmPerChunk).toNat

instance (wavFile : WaveformFile) (eventId : UInt64) : Decidable (wavFile.Fits eventId) :=
  inferInstanceAs (Decidable (_ ≤ _))

section Sizes

variable {wavFile : WaveformFile}

theorem Uniform.base (uniform : wavFile.Uniform) (eventId : UInt64) :
    (wavFile.base eventId).rows = wavFile.nCh.toNat ∧
      (wavFile.base eventId).columns = (wavFile.nPt * wavFile.nWfmPerChunk).toNat := by
  cases found : wavFile.chunk eventId with
  | none =>
    rw [WaveformFile.base, found]
    exact ⟨rfl, rfl⟩
  | some dataset =>
    rw [WaveformFile.base, found]
    exact uniform _ dataset found

theorem Uniform.holds_iff (uniform : wavFile.Uniform) (eventId : UInt64) :
    (wavFile.base eventId).Holds (wavFile.slab eventId) ↔ wavFile.Fits eventId := by
  obtain ⟨rows, columns⟩ := uniform.base eventId
  rw [Dataset.Holds, rows, columns]
  exact and_iff_right (le_of_eq (Nat.zero_add _))

/-- A write puts a dataset of the right extent under the name of its chunk, unless it leaves the
one that is there. -/
theorem root_write (wavEvent : WaveformEvent) :
    (wavFile.chunk wavEvent.eventId).isSome ∧
        (wavFile.write wavEvent).waveFid.root = wavFile.waveFid.root ∨
      ∃ dataset, (wavFile.write wavEvent).waveFid.root =
          wavFile.waveFid.root.set (wavFile.chunkName wavEvent.eventId) dataset ∧
        dataset.rows = (wavFile.base wavEvent.eventId).rows ∧
        dataset.columns = (wavFile.base wavEvent.eventId).columns := by
  by_cases clashes : wavFile.Clashes wavEvent.eventId
  · rw [write, writeEvent_of_clashes clashes]
    exact Or.inl ⟨clashes.2, rfl⟩
  · by_cases holds : (wavFile.base wavEvent.eventId).Holds (wavFile.slab wavEvent.eventId)
    · rw [write, writeEvent_of_holds clashes holds]
      exact Or.inr ⟨_, rfl, rfl, rfl⟩
    · rw [write, writeEvent_of_leaves clashes holds]
      by_cases there : (wavFile.chunk wavEvent.eventId).isSome
      · exact Or.inl ⟨there, if_pos there⟩
      · exact Or.inr ⟨_, if_neg there, rfl, rfl⟩

theorem Uniform.write (uniform : wavFile.Uniform) (wavEvent : WaveformEvent) :
    (wavFile.write wavEvent).Uniform := by
  intro name dataset found
  rcases wavFile.root_write wavEvent with ⟨-, same⟩ | ⟨placed, root, rows, columns⟩
  · rw [same] at found
    exact uniform name dataset found
  · rw [root] at found
    by_cases here : name = wavFile.chunkName wavEvent.eventId
    · rw [here, Store.dataset_set_self] at found
      obtain rfl := Option.some.inj found
      rw [rows, columns]
      exact uniform.base wavEvent.eventId
    · rw [Store.dataset_set_of_ne _ here] at found
      exact uniform name dataset found

/-- After a write its chunk is there, whether the write succeeded or not. -/
theorem chunk_write (wavEvent : WaveformEvent) (eventId : UInt64) :
    ((wavFile.write wavEvent).chunk eventId).isSome ↔
      (wavFile.chunk eventId).isSome ∨
        wavFile.chunkId wavEvent.eventId = wavFile.chunkId eventId := by
  have named : (wavFile.write wavEvent).chunk eventId =
      (wavFile.write wavEvent).waveFid.root.dataset (wavFile.chunkName eventId) := rfl
  rw [named]
  by_cases here : wavFile.chunkId wavEvent.eventId = wavFile.chunkId eventId
  · have same := chunkName_inj.mpr here
    refine iff_of_true ?_ (Or.inr here)
    rw [← same]
    rcases wavFile.root_write wavEvent with ⟨there, root⟩ | ⟨placed, root, -⟩
    · rw [root]
      exact there
    · rw [root, Store.dataset_set_self]
      rfl
  · have differs : wavFile.chunkName eventId ≠ wavFile.chunkName wavEvent.eventId :=
      fun same => here (chunkName_inj.mp same).symm
    rw [or_iff_left here]
    rcases wavFile.root_write wavEvent with ⟨-, root⟩ | ⟨placed, root, -⟩
    · rw [root]
      exact Iff.rfl
    · rw [root, Store.dataset_set_of_ne _ differs]
      exact Iff.rfl

end Sizes

/-! ### Stored events -/

/-- An event is in the file: its rectangle lies in the dataset of its chunk and holds its
buffer. -/
def Stored (wavFile : WaveformFile) (wavEvent : WaveformEvent) : Prop :=
  ∃ dataset, wavFile.chunk wavEvent.eventId = some dataset ∧
    dataset.Holds (wavFile.slab wavEvent.eventId) ∧
    dataset.get (wavFile.slab wavEvent.eventId) = wavEvent.wavBuf

/-- A write succeeds. -/
def Succeeds (wavFile : WaveformFile) (wavEvent : WaveformEvent) : Prop :=
  0 ≤ (wavFile.writeEvent wavEvent).2

instance (wavFile : WaveformFile) (wavEvent : WaveformEvent) :
    Decidable (wavFile.Succeeds wavEvent) :=
  inferInstanceAs (Decidable (_ ≤ _))

section Stored

variable {wavFile : WaveformFile} {wavEvent : WaveformEvent}

theorem Uniform.succeeds_iff (uniform : wavFile.Uniform) :
    wavFile.Succeeds wavEvent ↔
      ¬wavFile.Clashes wavEvent.eventId ∧ wavFile.Fits wavEvent.eventId := by
  rw [Succeeds, ← uniform.holds_iff]
  by_cases clashes : wavFile.Clashes wavEvent.eventId
  · rw [writeEvent_of_clashes clashes]
    exact iff_of_false (show ¬(0 : Int) ≤ -1 by decide) fun both => both.1 clashes
  · by_cases holds : (wavFile.base wavEvent.eventId).Holds (wavFile.slab wavEvent.eventId)
    · rw [writeEvent_of_holds clashes holds]
      exact iff_of_true le_rfl ⟨clashes, holds⟩
    · rw [writeEvent_of_leaves clashes holds]
      exact iff_of_false (show ¬(0 : Int) ≤ -1 by decide) fun both => holds both.2

/-- What a write that succeeds does. -/
theorem Uniform.writeEvent_eq (uniform : wavFile.Uniform)
    (succeeds : wavFile.Succeeds wavEvent) :
    wavFile.writeEvent wavEvent = (wavFile.counted (wavFile.withEvent wavEvent), 0) := by
  obtain ⟨free, fits⟩ := uniform.succeeds_iff.mp succeeds
  exact writeEvent_of_holds free ((uniform.holds_iff wavEvent.eventId).mpr fits)

/-- A stored event is read back. -/
theorem Stored.readEvent (stored : wavFile.Stored wavEvent) {room : List ScopeData}
    (full : room.length = (wavFile.slab wavEvent.eventId).size) :
    wavFile.readEvent ⟨wavEvent.eventId, room⟩ = (wavEvent.wavBuf, 0) := by
  obtain ⟨dataset, found, holds, content⟩ := stored
  rw [WaveformFile.readEvent, atRoot_readName, Store.read_full room found holds full, content]

/-- A write that succeeds stores its event. -/
theorem Uniform.stored (uniform : wavFile.Uniform) (succeeds : wavFile.Succeeds wavEvent)
    (full : wavEvent.wavBuf.length = (wavFile.slab wavEvent.eventId).size) :
    (wavFile.write wavEvent).Stored wavEvent := by
  have holds := (uniform.holds_iff wavEvent.eventId).mpr (uniform.succeeds_iff.mp succeeds).2
  rw [WaveformFile.write, uniform.writeEvent_eq succeeds]
  exact ⟨_, Store.dataset_set_self _ _ _, holds, Dataset.get_put _ _ full⟩

/-- A write that succeeds keeps the events elsewhere. -/
theorem Stored.write (stored : wavFile.Stored wavEvent) (uniform : wavFile.Uniform)
    {other : WaveformEvent} (succeeds : wavFile.Succeeds other)
    (elsewhere : wavFile.chunkId other.eventId ≠ wavFile.chunkId wavEvent.eventId ∨
      (wavFile.slab other.eventId).Apart (wavFile.slab wavEvent.eventId)) :
    (wavFile.write other).Stored wavEvent := by
  obtain ⟨dataset, found, holds, content⟩ := stored
  rw [WaveformFile.write, uniform.writeEvent_eq succeeds]
  by_cases here : wavFile.chunkId other.eventId = wavFile.chunkId wavEvent.eventId
  · have apart := elsewhere.resolve_left (not_not_intro here)
    have same := chunkName_inj.mpr here
    have base : wavFile.base other.eventId = dataset := by
      rw [base, chunk, same]
      exact congrArg (Option.getD · _) found
    refine ⟨(wavFile.base other.eventId).put (wavFile.slab other.eventId) other.wavBuf,
      ?_, base ▸ holds, ?_⟩
    · exact (congrArg _ same.symm).trans (Store.dataset_set_self _ _ _)
    · rw [base]
      exact (Dataset.get_put_of_apart dataset apart _).trans content
  · have differs : wavFile.chunkName wavEvent.eventId ≠ wavFile.chunkName other.eventId :=
      fun same => here (chunkName_inj.mp same).symm
    exact ⟨dataset, (Store.dataset_set_of_ne _ differs _).trans found, holds, content⟩

end Stored

/-! ### A run of writes -/

/-- No write of the run fails. -/
def AllSucceed (start : WaveformFile) (calls : List WaveformEvent) : Prop :=
  Along write Succeeds start calls

section Run

variable {start : WaveformFile} (calls : List WaveformEvent)

theorem sizes_run :
    (run write start calls).nPt = start.nPt ∧ (run write start calls).nCh = start.nCh ∧
      (run write start calls).nWfmPerChunk = start.nWfmPerChunk := by
  have kept : ∀ (file : WaveformFile) (call : WaveformEvent),
      (file.nPt = start.nPt ∧ file.nCh = start.nCh ∧ file.nWfmPerChunk = start.nWfmPerChunk) →
        (file.write call).nPt = start.nPt ∧ (file.write call).nCh = start.nCh ∧
          (file.write call).nWfmPerChunk = start.nWfmPerChunk := fun _ _ same => same
  exact run_always _ kept ⟨rfl, rfl, rfl⟩ calls

theorem chunkId_run (eventId : UInt64) :
    (run write start calls).chunkId eventId = start.chunkId eventId := by
  rw [chunkId, (sizes_run calls).2.2, chunkId]

theorem inChunkId_run (eventId : UInt64) :
    (run write start calls).inChunkId eventId = start.inChunkId eventId := by
  rw [inChunkId, (sizes_run calls).2.2, inChunkId]

theorem slab_run (eventId : UInt64) :
    (run write start calls).slab eventId = start.slab eventId := by
  rw [slab, inChunkId_run, (sizes_run calls).1, (sizes_run calls).2.1, slab]

theorem fits_run (eventId : UInt64) :
    (run write start calls).Fits eventId ↔ start.Fits eventId := by
  rw [Fits, inChunkId_run, (sizes_run calls).1, (sizes_run calls).2.2, Fits]

theorem uniform_run (uniform : start.Uniform) : (run write start calls).Uniform :=
  run_always Uniform (fun _ call kept => kept.write call) uniform calls

/-- Every write counts. -/
theorem nEvents_run :
    (run write start calls).nEvents = start.nEvents + UInt64.ofNat calls.length := by
  induction calls using List.reverseRecOn with
  | nil => exact (UInt64.add_zero _).symm
  | append_singleton seen call inductionHypothesis =>
    have counts : ∀ file : WaveformFile, (file.write call).nEvents = file.nEvents + 1 :=
      fun _ => rfl
    rw [run_concat, counts, inductionHypothesis, List.length_append, List.length_singleton,
      UInt64.ofNat_add, UInt64.add_assoc]
    rfl

/-- In a new file a chunk is there when one of its events was written. -/
theorem chunk_run (new : ∀ eventId, start.chunk eventId = none) (eventId : UInt64) :
    ((run write start calls).chunk eventId).isSome ↔
      ∃ call ∈ calls, start.chunkId call.eventId = start.chunkId eventId := by
  induction calls using List.reverseRecOn with
  | nil =>
    rw [run_nil, new eventId]
    exact iff_of_false Bool.false_ne_true fun found => List.not_mem_nil found.choose_spec.1
  | append_singleton seen call inductionHypothesis =>
    rw [run_concat, chunk_write, inductionHypothesis, chunkId_run, chunkId_run]
    simp only [List.mem_append, List.mem_singleton, or_and_right, exists_or, exists_eq_left]

/-- In a new file no write of a run fails exactly when every event fits and the first event of a
chunk comes before the others. -/
theorem allSucceed_iff (uniform : start.Uniform) (new : ∀ eventId, start.chunk eventId = none) :
    AllSucceed start calls ↔
      (∀ call ∈ calls, start.Fits call.eventId) ∧
        calls.Pairwise fun earlier call =>
          start.inChunkId call.eventId = 0 →
            start.chunkId earlier.eventId ≠ start.chunkId call.eventId := by
  induction calls using List.reverseRecOn with
  | nil =>
    exact iff_of_true trivial ⟨fun _ member => absurd member List.not_mem_nil, List.Pairwise.nil⟩
  | append_singleton seen call inductionHypothesis =>
    have free : ¬(run write start seen).Clashes call.eventId ↔
        ∀ earlier ∈ seen, start.inChunkId call.eventId = 0 →
          start.chunkId earlier.eventId ≠ start.chunkId call.eventId := by
      rw [Clashes, inChunkId_run, chunk_run seen new]
      simp only [not_and, not_exists, ne_eq]
      exact ⟨fun apart earlier member first => apart first earlier member,
        fun apart first earlier member => apart earlier member first⟩
    rw [AllSucceed, along_concat, ← AllSucceed, inductionHypothesis,
      (uniform_run seen uniform).succeeds_iff, free, fits_run, List.pairwise_append,
      List.forall_mem_append, List.forall_mem_singleton]
    simp only [List.pairwise_singleton, List.mem_singleton, forall_eq, true_and]
    exact ⟨fun both => ⟨⟨both.1.1, both.2.2⟩, both.1.2, both.2.1⟩,
      fun both => ⟨⟨both.1.1, both.2.1⟩, both.2.2, both.1.2⟩⟩

end Run

end WaveformFile

end K71GbE
