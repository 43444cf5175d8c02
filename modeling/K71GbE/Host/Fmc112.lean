/-
This file models the data taking of `fmc112.c`: the check of the channel mask,
the select value made from it, and the loop that scatters the received samples
into `wavBuf`.

The loop over one chunk lists the copies it makes, as the cell of `wavBuf` that is
written and the sample of the receive buffer that is read. A mask without a bit for
any channel would keep it running for ever, so it runs on fuel.
-/

import K71GbE.Clocked.Lanes
import K71GbE.Clocked.SetBits

namespace K71GbE.Host

open Clocked

/-- `SCOPE_NCH`. -/
def scopeNch : Nat := 16

/-- `SCOPE_MEM_LENGTH_MAX`. -/
def scopeMemLengthMax : Nat := 33554432

/-- `NBASK`, the bytes of one chunk. -/
def nbask : Nat := 4096 * 32

/-! ### The channel mask -/

/-- `for(c=0; v; c++) v &= v - 1;` -/
def countLoop : Nat → BitVec 32 → Nat → Nat
  | 0, _, c => c
  | fuel + 1, v, c => if v = 0 then c else countLoop fuel (v &&& (v - 1)) (c + 1)

/-- `nCh`. A bit is cleared in each of the rounds, so there are at most 32. -/
def nCh (chMask : BitVec 32) : Nat := countLoop 32 chMask 0

/-- `main` goes on with this mask. -/
def Accepted (chMask : BitVec 32) : Prop :=
  ¬(chMask = 0 ∨ scopeNch < nCh chMask) ∧
    ¬(nCh chMask ≠ 1 ∧ nCh chMask ≠ 4 ∧ nCh chMask ≠ 8 ∧ nCh chMask ≠ 16)

instance (chMask : BitVec 32) : Decidable (Accepted chMask) :=
  inferInstanceAs (Decidable (¬(_ ∨ _) ∧ ¬(_ ∧ _ ∧ _ ∧ _)))

/-- `waveformAttr.nPt`. -/
def nPt (chMask : BitVec 32) : Nat := scopeMemLengthMax * (scopeNch / nCh chMask)

/-- `for(val = 0x0000; (((chMask>>val) & (0x0001)) == 0) && (val<16) ; val++)`. -/
def firstChannel (chMask : BitVec 32) : Nat → Nat → Nat
  | 0, val => val
  | fuel + 1, val =>
    if (chMask >>> val) &&& 0x0001 = 0 ∧ val < 16 then firstChannel chMask fuel (val + 1) else val

/-- The `switch(nCh)` statement of `fmc112_prepare`. -/
def selectChannel (chMask : BitVec 32) : BitVec 32 :=
  match nCh chMask with
  | 1 => BitVec.ofNat 32 (firstChannel chMask 16 0)
  | 4 =>
    0x0010 ||| (if chMask &&& 0x000f ≠ 0 then 0x0000 else 0) |||
      (if chMask &&& 0x00f0 ≠ 0 then 0x0001 else 0) |||
      (if chMask &&& 0x0f00 ≠ 0 then 0x0002 else 0) |||
      (if chMask &&& 0xf000 ≠ 0 then 0x0003 else 0)
  | 8 =>
    0x0020 ||| (if chMask &&& 0x00ff ≠ 0 then 0x0000 else 0) |||
      (if chMask &&& 0xff00 ≠ 0 then 0x0001 else 0)
  | 16 => 0x0030
  | _ => 0x0000

/-- The value that `fmc112_prepare` writes to register 14. -/
def selectVal (chMask avgMask : BitVec 32) : BitVec 32 := selectChannel chMask ||| (avgMask <<< 8)

theorem countLoop_eq {fuel : Nat} {v : BitVec 32} (enough : (setBits v).length ≤ fuel) (c : Nat) :
    countLoop fuel v c = c + (setBits v).length := by
  induction fuel generalizing v c with
  | zero => rw [Nat.le_zero.mp enough, countLoop, Nat.add_zero]
  | succ fuel inductionHypothesis =>
    rw [countLoop]
    split_ifs with zero
    · rw [zero, setBits_zero, List.length_nil, Nat.add_zero]
    · obtain ⟨b, taken⟩ := setBits_and_sub_one zero
      rw [taken, List.length_cons] at enough ⊢
      rw [inductionHypothesis (Nat.le_of_succ_le_succ enough)]
      omega

/-- Clearing the lowest bit until none is left counts the bits. -/
theorem nCh_eq (chMask : BitVec 32) : nCh chMask = (setBits chMask).length := by
  have bound : (setBits chMask).length ≤ 32 :=
    (List.length_filter_le _ _).trans (List.length_range (n := 32)).le
  rw [nCh, countLoop_eq bound, Nat.zero_add]

/-! ### The loop over one chunk -/

section Loop

variable (chMask : BitVec 32) (nPt : Nat)

/-- A sample of the receive buffer, read by a host that keeps the low byte first. -/
def ibufsd (ibuf : List (BitVec 8)) (i : Nat) : BitVec 16 := ofLanes ((ibuf.drop (2 * i)).take 2)

/-- A cell of `wavBuf` and the sample of the receive buffer copied to it. -/
structure Copy where
  cell : Nat
  i : Nat
deriving DecidableEq, Repr

/-- The variables of the loop over the channels, and the copies it made. -/
structure Row where
  j : Nat
  i : Nat
  copies : List Copy

/-- The body of the loop over the channels. -/
def rowStep (iP : Nat) (row : Row) (iCh : Nat) : Row :=
  if (chMask >>> iCh) &&& 0x01 ≠ 0 then
    ⟨row.j + 1, row.i + 1, row.copies ++ [⟨row.j * nPt + iP, row.i⟩]⟩
  else row

/-- `j=0; for(iCh=0; iCh<SCOPE_NCH; iCh++)`. -/
def fillRow (iP i : Nat) : Row :=
  (List.range scopeNch).foldl (rowStep chMask nPt iP) ⟨0, i, []⟩

/-- `while(i<readTotal/sizeof(SCOPE_DATA_TYPE))`, with `iP` after it. -/
def fillLoop (limit : Nat) : Nat → Nat → Nat → Option (Nat × List Copy)
  | 0, _, _ => none
  | fuel + 1, iP, i =>
    if i < limit then
      let row := fillRow chMask nPt iP i
      (fillLoop limit fuel (iP + 1) row.i).map fun after =>
        (after.1, row.copies ++ after.2)
    else some (iP, [])

/-- The channels whose bits are set. -/
def masked : List Nat := (List.range scopeNch).filter chMask.getLsbD

/-- Without bits above the channels, these are all that are set. -/
theorem masked_eq (low : ∀ c ∈ setBits chMask, c < scopeNch) :
    masked chMask = setBits chMask := by
  have above : ((List.range 16).map (16 + ·)).filter chMask.getLsbD = [] := by
    refine List.filter_eq_nil_iff.mpr fun c member set => ?_
    obtain ⟨offset, _, rfl⟩ := List.mem_map.mp member
    exact absurd (low _ ((mem_setBits chMask _).mpr set)) (Nat.not_lt.mpr (Nat.le_add_right _ _))
  have split : List.range 32 = List.range 16 ++ (List.range 16).map (16 + ·) := rfl
  rw [setBits, split, List.filter_append, above, List.append_nil]
  rfl

theorem bit_ne_zero (iCh : Nat) : (chMask >>> iCh) &&& 0x01 ≠ 0 ↔ chMask.getLsbD iCh = true := by
  have one : (chMask >>> iCh) &&& 0x01 = (BitVec.ofBool (chMask.getLsbD iCh)).setWidth 32 := by
    refine BitVec.eq_of_getLsbD_eq fun bit small => ?_
    cases bit <;> simp
  rw [one]
  cases chMask.getLsbD iCh <;> decide

/-- The loop over channels copies one sample for each of those whose bits are set. -/
theorem foldl_rowStep (iP : Nat) (channels : List Nat) (row : Row) :
    channels.foldl (rowStep chMask nPt iP) row =
      let n := (channels.filter chMask.getLsbD).length
      ⟨row.j + n, row.i + n, row.copies ++
        (List.range n).map fun k => ⟨(row.j + k) * nPt + iP, row.i + k⟩⟩ := by
  induction channels generalizing row with
  | nil => simp
  | cons iCh rest inductionHypothesis =>
    rw [List.foldl_cons, inductionHypothesis, rowStep]
    split_ifs with set
    · rw [bit_ne_zero] at set
      have next : ∀ k, row.j + 1 + k = row.j + (k + 1) ∧ row.i + 1 + k = row.i + (k + 1) := by
        omega
      simp only [List.filter_cons_of_pos set, List.length_cons, List.range_succ_eq_map,
        List.map_cons, List.map_map, Function.comp_def, List.append_assoc, List.singleton_append,
        (next _).1, (next _).2, Nat.succ_eq_add_one, Nat.add_zero]
    · rw [bit_ne_zero] at set
      rw [List.filter_cons_of_neg set]

/-- One sample for each channel that is set goes to its row of `wavBuf`. -/
theorem fillRow_eq (iP i : Nat) :
    fillRow chMask nPt iP i =
      ⟨(masked chMask).length, i + (masked chMask).length,
        (List.range (masked chMask).length).map fun j => ⟨j * nPt + iP, i + j⟩⟩ := by
  rw [fillRow, foldl_rowStep]
  simp only [Nat.zero_add, List.nil_append, masked]

/-- The copies of so many rounds. -/
def copies (iP i rows : Nat) : List Copy :=
  (List.range rows).flatMap fun r =>
    (List.range (masked chMask).length).map fun j =>
      ⟨j * nPt + (iP + r), i + (r * (masked chMask).length + j)⟩

/-- The loop ends with the round that reaches the limit. -/
theorem fillLoop_rows {limit fuel rows : Nat} (enough : rows < fuel) (iP i : Nat)
    (reached : limit ≤ i + rows * (masked chMask).length)
    (needed : ∀ r < rows, i + r * (masked chMask).length < limit) :
    fillLoop chMask nPt limit fuel iP i = some (iP + rows, copies chMask nPt iP i rows) := by
  unfold copies
  set n := (masked chMask).length with length
  induction rows generalizing fuel iP i with
  | zero =>
    obtain ⟨fuel, rfl⟩ := Nat.exists_eq_succ_of_ne_zero (Nat.ne_of_gt enough)
    rw [fillLoop, if_neg (by omega)]
    rfl
  | succ rows inductionHypothesis =>
    obtain ⟨fuel, rfl⟩ := Nat.exists_eq_succ_of_ne_zero (Nat.ne_of_gt (Nat.zero_lt_of_lt enough))
    have more : i < limit := by simpa using needed 0 (Nat.succ_pos rows)
    rw [fillLoop, if_pos more, fillRow_eq, ← length]
    show (fillLoop chMask nPt limit fuel (iP + 1) (i + n)).map _ = _
    rw [inductionHypothesis (Nat.lt_of_succ_lt_succ enough) (iP + 1) (i + n)
        (by rw [Nat.succ_mul] at reached; omega)
        (fun r less => by
          have within := needed (r + 1) (Nat.succ_lt_succ less)
          rw [Nat.succ_mul] at within
          omega),
      Option.map_some, List.range_succ_eq_map, List.flatMap_cons, List.flatMap_map]
    refine congrArg some (Prod.ext (by omega) (congrArg₂ (· ++ ·) ?_ ?_))
    · simp only [Nat.zero_mul, Nat.zero_add, Nat.add_zero]
    · refine List.flatMap_congr fun r _ => List.map_congr_left fun j _ => ?_
      have row : iP + 1 + r = iP + (r + 1) := by omega
      have sample : i + n + (r * n + j) = i + ((r + 1) * n + j) := by
        rw [Nat.succ_mul]
        omega
      rw [row, sample]

/-- The loop ends after as many rounds as there are samples for every channel. -/
theorem fillLoop_eq (channels : 0 < (masked chMask).length) {fuel rows : Nat} (enough : rows < fuel)
    (iP i : Nat) :
    fillLoop chMask nPt (i + rows * (masked chMask).length) fuel iP i =
      some (iP + rows, (List.range rows).flatMap fun r =>
        (List.range (masked chMask).length).map fun j =>
          ⟨j * nPt + (iP + r), i + (r * (masked chMask).length + j)⟩) :=
  fillLoop_rows chMask nPt enough iP i le_rfl fun _ less =>
    Nat.add_lt_add_left (Nat.mul_lt_mul_of_pos_right less channels) i

end Loop

/-! ### The loop over the chunks -/

/-- The variables of `fmc112_read_save` that last from chunk to chunk, with what was written
to `wavBuf`. -/
structure Reading where
  nb : Nat
  iP : Nat
  written : List (Nat × BitVec 16)

/-- `fmc112_read_save` on the chunks it receives, up to the last of them. -/
def readSave (fuel : Nat) (chMask : BitVec 32) (nPt : Nat) :
    Reading → List (List (BitVec 8)) → Option Reading
  | reading, [] => some reading
  | reading, ibuf :: rest =>
    if reading.nb < scopeNch * scopeMemLengthMax * 2 then
      (fillLoop chMask nPt (ibuf.length / 2) fuel reading.iP 0).bind fun after =>
        readSave fuel chMask nPt
          { nb := reading.nb + ibuf.length
            iP := after.1
            written := reading.written ++ after.2.map fun copy => (copy.cell, ibufsd ibuf copy.i) }
          rest
    else some reading

/-- An array after some of its cells were written, one after another. -/
def writeAll (wavBuf : Nat → BitVec 16) (written : List (Nat × BitVec 16)) : Nat → BitVec 16 :=
  written.foldl (fun wavBuf cell => Function.update wavBuf cell.1 cell.2) wavBuf

/-! ### Samples and cells -/

/-- The samples of a buffer that was filled sample by sample, each with its low byte first. -/
theorem ibufsd_lanes {samples : List (BitVec 16)} {i : Nat} (inside : i < samples.length) :
    ibufsd (samples.flatMap (lanes 8 2)) i = samples[i] := by
  induction samples generalizing i with
  | nil => cases inside
  | cons sample rest inductionHypothesis =>
    cases i with
    | zero =>
      have first : ((lanes 8 2 sample ++ rest.flatMap (lanes 8 2)).drop 0).take 2 =
          lanes 8 2 sample := rfl
      rw [ibufsd, List.flatMap_cons, first, List.getElem_cons_zero]
      exact ofLanes_lanes sample rfl
    | succ i =>
      have later : (lanes 8 2 sample ++ rest.flatMap (lanes 8 2)).drop (2 * (i + 1)) =
          (rest.flatMap (lanes 8 2)).drop (2 * i) := rfl
      rw [ibufsd, List.flatMap_cons, later, List.getElem_cons_succ]
      exact inductionHypothesis (Nat.lt_of_succ_lt_succ inside)

/-- The samples of the beginning of a buffer are samples of the buffer. -/
theorem ibufsd_append_left (first second : List (BitVec 8)) {i : Nat}
    (inside : 2 * i + 2 ≤ first.length) : ibufsd (first ++ second) i = ibufsd first i := by
  rw [ibufsd, ibufsd, List.drop_append_of_le_length (by omega),
    List.take_append_of_le_length (by rw [List.length_drop]; omega)]

/-- Behind a beginning of `m` samples, those of the rest are counted on from `m`. -/
theorem ibufsd_append_right {first : List (BitVec 8)} {m : Nat} (length : first.length = 2 * m)
    (second : List (BitVec 8)) (i : Nat) : ibufsd (first ++ second) (m + i) = ibufsd second i := by
  rw [ibufsd, ibufsd, Nat.mul_add, ← length, List.drop_length_add_append]

/-- A cell has the value that everything written to it has. -/
theorem writeAll_value {written : List (Nat × BitVec 16)} {cell : Nat} {value : BitVec 16}
    (wavBuf : Nat → BitVec 16) (found : ∃ write ∈ written, write.1 = cell)
    (agree : ∀ write ∈ written, write.1 = cell → write.2 = value) :
    writeAll wavBuf written cell = value := by
  induction written using List.reverseRecOn with
  | nil => simp at found
  | append_singleton front write inductionHypothesis =>
    rw [writeAll, List.foldl_append, List.foldl_cons, List.foldl_nil, ← writeAll]
    by_cases same : write.1 = cell
    · rw [same, Function.update_self]
      exact agree write (List.mem_append_right front List.mem_cons_self) same
    · rw [Function.update_of_ne fun equal => same equal.symm]
      refine inductionHypothesis ?_ fun other member =>
        agree other (List.mem_append_left _ member)
      obtain ⟨other, member, equal⟩ := found
      rcases List.mem_append.mp member with front | last
      · exact ⟨other, front, equal⟩
      · rw [List.mem_singleton.mp last] at equal
        exact absurd equal same

/-! ### The chunks together -/

/-- What the rows from `iP` on receive of a stream with `n` channels. -/
def rows (nPt n iP : Nat) (stream : List (BitVec 8)) (count : Nat) : List (Nat × BitVec 16) :=
  (List.range count).flatMap fun r =>
    (List.range n).map fun j => (j * nPt + (iP + r), ibufsd stream (r * n + j))

/-- Rows of a chunk, and rows of what follows it. -/
theorem rows_append (nPt iP : Nat) {n first : Nat} {ibuf : List (BitVec 8)}
    (length : ibuf.length = 2 * (first * n)) (rest : List (BitVec 8)) (second : Nat) :
    rows nPt n iP (ibuf ++ rest) (first + second) =
      rows nPt n iP ibuf first ++ rows nPt n (iP + first) rest second := by
  unfold rows
  rw [List.range_add, List.flatMap_append, List.flatMap_map]
  refine congrArg₂ (· ++ ·) ?_ ?_
  · refine List.flatMap_congr fun r below => List.map_congr_left fun j small => ?_
    rw [List.mem_range] at below small
    have inside : (r + 1) * n ≤ first * n := Nat.mul_le_mul_right n below
    rw [Nat.succ_mul] at inside
    rw [ibufsd_append_left ibuf rest (by omega)]
  · refine List.flatMap_congr fun r _ => List.map_congr_left fun j _ => ?_
    rw [Nat.add_mul, Nat.add_assoc (first * n), ibufsd_append_right length, Nat.add_assoc iP]

/-- Full chunks fill the rows with the samples of the stream they make up. -/
theorem readSave_eq (chMask : BitVec 32) (nPt : Nat) {fuel perChunk : Nat}
    (channels : 0 < (masked chMask).length) (whole : perChunk * (masked chMask).length * 2 = nbask)
    (enough : perChunk < fuel) {chunks : List (List (BitVec 8))}
    (full : ∀ ibuf ∈ chunks, ibuf.length = nbask) (reading : Reading)
    (room : reading.nb + chunks.length * nbask ≤ scopeNch * scopeMemLengthMax * 2) :
    readSave fuel chMask nPt reading chunks = some
      { nb := reading.nb + chunks.length * nbask
        iP := reading.iP + chunks.length * perChunk
        written := reading.written ++ rows nPt (masked chMask).length reading.iP chunks.flatten
          (chunks.length * perChunk) } := by
  induction chunks generalizing reading with
  | nil => simp [readSave, rows]
  | cons ibuf rest inductionHypothesis =>
    obtain ⟨first, later⟩ := List.forall_mem_cons.mp full
    rw [List.length_cons, Nat.succ_mul] at room
    have more : reading.nb < scopeNch * scopeMemLengthMax * 2 := by
      have positive : 0 < nbask := by decide
      omega
    have limit : ibuf.length / 2 = 0 + perChunk * (masked chMask).length := by
      rw [first, ← whole, Nat.mul_div_cancel _ (by decide), Nat.zero_add]
    have chunk := fillLoop_eq chMask nPt channels enough reading.iP 0
    rw [readSave, if_pos more, limit, chunk, Option.bind_some, inductionHypothesis later]
    · have samples : ibuf.length = 2 * (perChunk * (masked chMask).length) := by
        rw [first, ← whole, Nat.mul_comm]
      have count : ∀ m, (rest.length + 1) * m = m + rest.length * m := fun m => by
        rw [Nat.succ_mul, Nat.add_comm]
      rw [List.length_cons, count, count, List.flatten_cons,
        rows_append nPt reading.iP samples]
      simp only [first, Nat.add_assoc, List.append_assoc, rows, List.map_flatMap, List.map_map,
        Function.comp_def, Nat.zero_add]
    · show reading.nb + ibuf.length + rest.length * nbask ≤ _
      omega

/-! ### The rows and the cells -/

/-- A cell belongs to one row and one point. -/
theorem cell_eq_iff {nPt j p j' p' : Nat} (small : p < nPt) (small' : p' < nPt) :
    j' * nPt + p' = j * nPt + p ↔ j' = j ∧ p' = p := by
  constructor
  · intro same
    have place : (j' * nPt + p') % nPt = (j * nPt + p) % nPt := congrArg (· % nPt) same
    rw [Nat.mul_add_mod', Nat.mul_add_mod', Nat.mod_eq_of_lt small',
      Nat.mod_eq_of_lt small] at place
    have rest : j' * nPt = j * nPt := by
      subst place
      exact Nat.add_right_cancel same
    exact ⟨Nat.eq_of_mul_eq_mul_right (Nat.zero_lt_of_lt small) rest, place⟩
  · rintro ⟨rfl, rfl⟩
    rfl

/-- A cell of a row of `wavBuf` has the sample of its channel. -/
theorem writeAll_rows (wavBuf : Nat → BitVec 16) (nPt n : Nat) (stream : List (BitVec 8))
    {count : Nat} (room : count ≤ nPt) {j p : Nat} (channel : j < n) (row : p < count) :
    writeAll wavBuf (rows nPt n 0 stream count) (j * nPt + p) = ibufsd stream (p * n + j) := by
  have mem : ∀ write : Nat × BitVec 16, write ∈ rows nPt n 0 stream count ↔
      ∃ p' < count, ∃ j' < n, (j' * nPt + p', ibufsd stream (p' * n + j')) = write := by
    intro write
    simp only [rows, List.mem_flatMap, List.mem_map, List.mem_range, Nat.zero_add]
  refine writeAll_value wavBuf ⟨_, (mem _).mpr ⟨p, row, j, channel, rfl⟩, rfl⟩ ?_
  intro write member same
  obtain ⟨p', row', j', channel', rfl⟩ := (mem write).mp member
  obtain ⟨equal, place⟩ := (cell_eq_iff (row.trans_le room) (row'.trans_le room)).mp same
  rw [place, equal]

/-- The rows together write every cell of `wavBuf` once. -/
theorem rows_cells (nPt n : Nat) (stream : List (BitVec 8)) :
    ((rows nPt n 0 stream nPt).map Prod.fst).Perm (List.range (n * nPt)) := by
  have cells : (rows nPt n 0 stream nPt).map Prod.fst =
      (List.range nPt).flatMap fun p => (List.range n).map fun j => j * nPt + p := by
    simp only [rows, List.map_flatMap, List.map_map, Function.comp_def, Nat.zero_add]
  have once :
      ((List.range nPt).flatMap fun p => (List.range n).map fun j => j * nPt + p).Nodup := by
    refine List.nodup_flatMap.mpr ⟨fun p small => ?_, ?_⟩
    · rw [List.mem_range] at small
      exact List.nodup_range.map fun j' j same => ((cell_eq_iff small small).mp same).1
    · refine List.pairwise_lt_range.imp_of_mem fun {p p'} small small' less => ?_
      rw [List.mem_range] at small small'
      intro cell first second
      obtain ⟨j, _, rfl⟩ := List.mem_map.mp first
      obtain ⟨j', _, same⟩ := List.mem_map.mp second
      exact less.ne' ((cell_eq_iff small small').mp same).2
  rw [cells, List.perm_ext_iff_of_nodup once List.nodup_range]
  intro cell
  simp only [List.mem_flatMap, List.mem_map, List.mem_range]
  constructor
  · rintro ⟨p, small, j, channel, rfl⟩
    calc
      j * nPt + p < j * nPt + nPt := Nat.add_lt_add_left small _
      _ = (j + 1) * nPt := (Nat.succ_mul j nPt).symm
      _ ≤ n * nPt := Nat.mul_le_mul_right nPt channel
  · intro inside
    have points : 0 < nPt := Nat.pos_of_mul_pos_left (Nat.zero_lt_of_lt inside)
    have channel : cell / nPt < n := Nat.div_lt_of_lt_mul (Nat.mul_comm n nPt ▸ inside)
    exact ⟨cell % nPt, Nat.mod_lt _ points, cell / nPt, channel, Nat.div_add_mod' cell nPt⟩

/-- A chunk is whole points, and the chunks fit into the rows. -/
theorem chunk_sizes {n : Nat} (count : n = 1 ∨ n = 4 ∨ n = 8 ∨ n = 16) :
    0 < n ∧ nbask / 2 / n * n * 2 = nbask ∧
      ∀ chunks, chunks * nbask ≤ scopeNch * scopeMemLengthMax * 2 →
        chunks * (nbask / 2 / n) ≤ scopeMemLengthMax * (scopeNch / n) := by
  have chunk : nbask = 131072 := rfl
  have memory : scopeNch * scopeMemLengthMax * 2 = 8192 * nbask := rfl
  have points : scopeMemLengthMax = 8192 * 4096 := rfl
  have rows : scopeNch = 16 := rfl
  rw [memory, points, rows, chunk]
  rcases count with rfl | rfl | rfl | rfl <;> refine ⟨by decide, by decide, ?_⟩ <;> omega

end K71GbE.Host
