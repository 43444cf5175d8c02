/-
This file is about the copies of `fmc112_read_save`: when the loop that fills in a
chunk ends, and when its indices stay inside `wavBuf` and the bytes received.

The loop goes on in steps of a row, one sample for each channel of the mask. A chunk
of whole rows ends with its last sample; any other is filled up with what the buffer
held before. The rows of all chunks together may be more than `wavBuf` has.
-/

import K71GbE.Host.ReadSave

namespace K71GbE.Host

open Clocked

/-! ### The rows of a chunk -/

section Rows

variable (chMask : BitVec 32) (nPt : Nat) {limit : Nat}

/-- The fewest rows that have so many samples. -/
theorem exists_rows {n : Nat} (positive : 0 < n) (limit : Nat) :
    ∃ rows ≤ limit, limit ≤ rows * n ∧ ∀ r < rows, r * n < limit := by
  have enough : ∃ rows, limit ≤ rows * n := ⟨limit, Nat.le_mul_of_pos_right limit positive⟩
  refine ⟨Nat.find enough, ?_, Nat.find_spec enough, fun r less => ?_⟩
  · exact Nat.find_min' enough (Nat.le_mul_of_pos_right limit positive)
  · exact Nat.lt_of_not_le (Nat.find_min enough less)

/-- Without a channel the loop stays where it is. -/
theorem fillLoop_of_no_channel (noChannel : masked chMask = []) (more : 0 < limit) (fuel iP : Nat) :
    fillLoop chMask nPt limit fuel iP 0 = none := by
  induction fuel generalizing iP with
  | zero => rfl
  | succ fuel inductionHypothesis =>
    rw [fillLoop, if_pos more, fillRow_eq, noChannel]
    exact congrArg (Option.map _) (inductionHypothesis (iP + 1))

/-- The loop over a chunk ends when there is nothing to copy, or a channel to copy it to. -/
theorem fillLoop_ends_iff (readTotal iP : Nat) :
    (∃ fuel after, fillLoop chMask nPt (readTotal / 2) fuel iP 0 = some after) ↔
      readTotal < 2 ∨ ∃ c < scopeNch, chMask.getLsbD c = true := by
  have channel : masked chMask ≠ [] ↔ ∃ c < scopeNch, chMask.getLsbD c = true := by
    rw [masked, Ne, List.filter_eq_nil_iff]
    push Not
    simp only [List.mem_range]
  rw [← channel]
  constructor
  · rintro ⟨fuel, after, ends⟩
    by_contra endless
    push Not at endless
    rw [fillLoop_of_no_channel chMask nPt endless.2 (by omega)] at ends
    cases ends
  · rintro (few | anyChannel)
    · exact ⟨1, _, fillLoop_rows chMask nPt (Nat.zero_lt_one) iP 0 (by omega) (by omega)⟩
    · obtain ⟨rows, _, reached, needed⟩ :=
        exists_rows (List.length_pos_of_ne_nil anyChannel) (readTotal / 2)
      refine ⟨rows + 1, _, fillLoop_rows chMask nPt rows.lt_succ_self iP 0 ?_ ?_⟩
      · rwa [Nat.zero_add]
      · simpa only [Nat.zero_add] using needed

end Rows

/-- Bit 16 passes for a channel when the bits are counted, and two bytes keep the loop running. -/
theorem bit_sixteen_hangs :
    Accepted 0x10000 ∧
      ¬∃ fuel after, fillLoop 0x10000 (nPt 0x10000) (2 / 2) fuel 0 0 = some after := by
  refine ⟨by decide, ?_⟩
  rintro ⟨fuel, after, ends⟩
  rw [fillLoop_of_no_channel 0x10000 _ (by decide) Nat.zero_lt_one] at ends
  cases ends

/-! ### The copies of a run -/

/-- The copy writes to a sample of `wavBuf` and reads two bytes received for its chunk. -/
def Store.Safe (chMask : BitVec 32) (store : Store) : Prop :=
  store.copy.cell < nCh chMask * nPt chMask ∧ 2 * store.copy.i + 1 < store.readTotal

instance (chMask : BitVec 32) : DecidablePred (Store.Safe chMask) :=
  fun _ => inferInstanceAs (Decidable (_ ∧ _))

/-- A chunk of so many bytes is whole rows, and `wavBuf` has room for them behind `iP`. -/
def WholeRows (chMask : BitVec 32) (iP readTotal : Nat) : Prop :=
  let n := (masked chMask).length
  n = 0 ∨ readTotal < 2 ∨
    n ∣ readTotal / 2 ∧ iP + readTotal / 2 / n ≤ (nCh chMask - n + 1) * nPt chMask

instance (chMask : BitVec 32) (iP readTotal : Nat) : Decidable (WholeRows chMask iP readTotal) :=
  inferInstanceAs (Decidable (_ ∨ _ ∨ _ ∧ _))

/-- A chunk that ends with the round is whole rows that fit. -/
def Fits (chMask : BitVec 32) (saving : Saving) (wait : Wait) : Prop :=
  saving.status = .receiving → wait ≠ .timedOut → Ends (saving.take wait).readTotal wait →
    WholeRows chMask saving.iP (saving.take wait).readTotal

section Bounds

variable {chMask : BitVec 32}

/-- The rows of a chunk are safe when their samples are no more than there are, and they fit. -/
theorem copies_safe_iff {n rows iP readTotal : Nat} (length : (masked chMask).length = n)
    (positive : 0 < n) (anyRow : 0 < rows) (sample : Nat → BitVec 16) :
    (∀ copy ∈ copies chMask (nPt chMask) iP 0 rows,
        Store.Safe chMask ⟨copy, readTotal, sample copy.i⟩) ↔
      rows * n ≤ readTotal / 2 ∧ iP + rows ≤ (nCh chMask - n + 1) * nPt chMask := by
  have fewer : n ≤ nCh chMask := by
    rw [← length, nCh_eq, setBits, show List.range 32 = List.range scopeNch ++ _ from rfl,
      List.filter_append, List.length_append]
    exact Nat.le_add_right _ _
  have cells : (nCh chMask - n + 1) * nPt chMask + (n - 1) * nPt chMask =
      nCh chMask * nPt chMask := by
    rw [← Nat.add_mul]
    congr 1
    omega
  simp only [copies, length, List.mem_flatMap, List.mem_map, List.mem_range, forall_exists_index,
    and_imp, Store.Safe]
  constructor
  · intro safe
    have last := safe _ (rows - 1) (by omega) (n - 1) (by omega) rfl
    dsimp only at last
    have count : rows * n = (rows - 1) * n + n := by
      rw [← Nat.succ_mul, Nat.succ_eq_add_one, Nat.sub_add_cancel anyRow]
    omega
  · rintro ⟨samples, fit⟩ copy r row j channel rfl
    have column : j * nPt chMask ≤ (n - 1) * nPt chMask := Nat.mul_le_mul_right _ (by omega)
    have inside : (r + 1) * n ≤ rows * n := Nat.mul_le_mul_right n row
    rw [Nat.succ_mul] at inside
    dsimp only
    omega

/-- So many rows are the samples exactly when these are whole rows. -/
theorem rows_eq_iff {n limit rows : Nat} (positive : 0 < n) (reached : limit ≤ rows * n)
    (needed : ∀ r < rows, r * n < limit) (room : Nat → Prop) :
    rows * n ≤ limit ∧ room rows ↔ n ∣ limit ∧ room (limit / n) := by
  constructor
  · rintro ⟨samples, fit⟩
    obtain rfl := Nat.le_antisymm samples reached
    rw [Nat.mul_div_cancel _ positive]
    exact ⟨Nat.dvd_mul_left n rows, fit⟩
  · rintro ⟨⟨count, rfl⟩, fit⟩
    rw [Nat.mul_div_cancel_left _ positive] at fit
    have same : rows = count := by
      refine Nat.le_antisymm (Nat.le_of_not_lt fun more => ?_) ?_
      · exact absurd (needed count more) (Nat.not_lt.mpr (Nat.mul_comm n count).le)
      · exact Nat.le_of_mul_le_mul_right (Nat.mul_comm n count ▸ reached) positive
    rw [same]
    exact ⟨(Nat.mul_comm count n).le, fit⟩

theorem Saving.stored_next (saving : Saving) : saving.next.stored = saving.stored := by
  unfold Saving.next
  split_ifs <;> rfl

theorem Saving.fill_safe_iff (saving : Saving) :
    (∀ store ∈ (saving.fill chMask (nPt chMask)).stored, store.Safe chMask) ↔
      (∀ store ∈ saving.stored, store.Safe chMask) ∧
        WholeRows chMask saving.iP saving.readTotal := by
  by_cases few : saving.readTotal < 2
  · have filled : fillLoop chMask (nPt chMask) (saving.readTotal / 2) (saving.readTotal / 2 + 1)
        saving.iP 0 = some (saving.iP + 0, _) :=
      fillLoop_rows chMask (nPt chMask) (Nat.succ_pos _) saving.iP 0 (by omega) (by omega)
    have whole : WholeRows chMask saving.iP saving.readTotal := .inr (.inl few)
    simp only [Saving.fill, filled, Saving.stored_next, copies, List.range_zero, List.flatMap_nil,
      List.map_nil, List.append_nil, whole, and_true]
  have anySample : 0 < saving.readTotal / 2 := by omega
  by_cases noChannel : (masked chMask).length = 0
  · have stuck :=
      fillLoop_of_no_channel chMask (nPt chMask) (List.eq_nil_of_length_eq_zero noChannel) anySample
    simp only [Saving.fill, stuck,
      show WholeRows chMask saving.iP saving.readTotal from .inl noChannel, and_true]
  · have positive := Nat.pos_of_ne_zero noChannel
    obtain ⟨rows, small, reached, needed⟩ := exists_rows positive (saving.readTotal / 2)
    have more : 0 < rows := Nat.pos_of_mul_pos_right (anySample.trans_le reached)
    have filled : fillLoop chMask (nPt chMask) (saving.readTotal / 2) (saving.readTotal / 2 + 1)
        saving.iP 0 = some (saving.iP + rows, _) :=
      fillLoop_rows chMask (nPt chMask) (Nat.lt_succ_of_le small) saving.iP 0
        (by rwa [Nat.zero_add]) (by simpa only [Nat.zero_add] using needed)
    simp only [Saving.fill, filled, Saving.stored_next, List.forall_mem_append, List.forall_mem_map]
    refine and_congr_right fun _ => ?_
    rw [copies_safe_iff rfl positive more fun i => ibufsd saving.ibuf i]
    rw [rows_eq_iff positive reached needed fun rows => saving.iP + rows ≤ _]
    exact ⟨fun fits => .inr (.inr fits),
      fun whole => (whole.resolve_left noChannel).resolve_left few⟩

/-- One round adds only safe copies exactly when a chunk that ends is whole rows that fit. -/
theorem Saving.step_safe_iff (saving : Saving) (wait : Wait) :
    (∀ store ∈ (saving.step chMask (nPt chMask) wait).stored, store.Safe chMask) ↔
      (∀ store ∈ saving.stored, store.Safe chMask) ∧ Fits chMask saving wait := by
  have kept : (saving.take wait).stored = saving.stored ∧ (saving.take wait).iP = saving.iP := by
    cases wait <;> exact ⟨rfl, rfl⟩
  unfold Saving.step Fits
  cases status : saving.status with
  | receiving =>
    by_cases out : wait = .timedOut
    · simp [out]
    · by_cases ends : Ends (saving.take wait).readTotal wait
      · simp [out, ends, Saving.fill_safe_iff, kept]
      · simp [out, ends, kept]
  | finished | exited | hung => simp

/-- All copies of a run are safe exactly when every chunk that ends is whole rows that fit. -/
theorem copies_safe_iff_fits (chMask : BitVec 32) (ibuf : List (BitVec 8)) (waits : List Wait) :
    (∀ store ∈ (run (Saving.step chMask (nPt chMask)) (Saving.start ibuf) waits).stored,
        store.Safe chMask) ↔
      Along (Saving.step chMask (nPt chMask)) (Fits chMask) (Saving.start ibuf) waits := by
  induction waits using List.reverseRecOn with
  | nil =>
    have nothingStored : (Saving.start ibuf).stored = [] := Saving.stored_next _
    simp [Along, nothingStored]
  | append_singleton front wait inductionHypothesis =>
    rw [run_concat, along_concat, Saving.step_safe_iff, inductionHypothesis]

/-- Four channels, and a connection that is lost behind the first sample: the other three are read
from what the buffer held before. -/
theorem lost_connection_unsafe :
    Accepted 0x000f ∧
      ¬∀ store ∈ (run (Saving.step 0x000f (nPt 0x000f)) (Saving.start (List.replicate nbask 0))
          [.read [0x12, 0x34], .readFailed]).stored, store.Safe 0x000f := by
  decide +kernel

end Bounds

end K71GbE.Host
