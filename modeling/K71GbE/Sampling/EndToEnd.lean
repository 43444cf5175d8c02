/-
This file proves that the samples of the selected channels reach the rows of
`wavBuf` in their order.

The chain of FIFOs keeps the bytes that `channel_sel` forwards. Read with the low
byte first they are the samples of the selected channels, word by word and in
ascending order of the channels. The host takes them apart by the same count, so
each row collects one channel.
-/

import K71GbE.Host.Fmc112
import K71GbE.Sampling.Chain

namespace K71GbE.Sampling

open Clocked Host

/-- The samples of the selected channels: sample by sample, and in ascending order of the
channels within a sample. -/
def channelSamples (sel : BitVec 8) (words : List (BitVec 256)) : List (BitVec 16) :=
  words.flatMap fun word => (channels sel).map (part 16 word)

theorem forwarded_samples {sel : BitVec 8} (valid : Valid sel) (words : List (BitVec 256)) :
    words.flatMap (forwarded sel) = (channelSamples sel words).flatMap (lanes 8 2) := by
  rw [channelSamples, List.flatMap_assoc]
  refine List.flatMap_congr fun word _ => ?_
  rw [forwarded_eq valid, List.flatMap_map]

/-- The sample of one channel in one word. -/
theorem channelSamples_getElem? (sel : BitVec 8) (words : List (BitVec 256)) (p : Nat) {j : Nat}
    (inside : j < (channels sel).length) :
    (channelSamples sel words)[p * (channels sel).length + j]? =
      words[p]?.map fun word => part 16 word (channels sel)[j] := by
  unfold channelSamples
  induction words generalizing p with
  | nil => rfl
  | cons word rest inductionHypothesis =>
    rw [List.flatMap_cons]
    cases p with
    | zero =>
      rw [Nat.zero_mul, Nat.zero_add,
        List.getElem?_append_left (by rw [List.length_map]; exact inside), List.getElem?_map,
        List.getElem?_eq_getElem inside]
      rfl
    | succ p =>
      rw [List.getElem?_append_right (by rw [List.length_map, Nat.succ_mul]; omega),
        List.length_map, List.getElem?_cons_succ, ← inductionHypothesis]
      congr 1
      rw [Nat.succ_mul]
      omega

theorem length_channelSamples (sel : BitVec 8) (words : List (BitVec 256)) :
    (channelSamples sel words).length = words.length * (channels sel).length := by
  induction words with
  | nil => exact (Nat.zero_mul _).symm
  | cons word rest inductionHypothesis =>
    unfold channelSamples at inductionHypothesis ⊢
    rw [List.flatMap_cons, List.length_append, inductionHypothesis, List.length_map,
      List.length_cons, Nat.succ_mul, Nat.add_comm]

/-- One, four, eight or all sixteen channels are selected. -/
theorem length_channels {sel : BitVec 8} (valid : Valid sel) :
    (channels sel).length = 1 ∨ (channels sel).length = 4 ∨ (channels sel).length = 8 ∨
      (channels sel).length = 16 := by
  unfold channels
  cases selected : route sel with
  | fifo16 => exact .inl rfl
  | fifo64 => exact .inr (.inl rfl)
  | fifo128 => exact .inr (.inr (.inl rfl))
  | direct => exact .inr (.inr (.inr rfl))
  | others => exact absurd selected valid.1

theorem channels_lt {sel : BitVec 8} (valid : Valid sel) : ∀ c ∈ channels sel, c < scopeNch := by
  have offset := selOffset_lt sel
  unfold channels scopeNch
  cases selected : route sel with
  | fifo16 => simpa using offset
  | fifo64 =>
    have group := valid.2 selected
    simp only [List.mem_map, List.mem_range]
    rintro c ⟨k, small, rfl⟩
    omega
  | fifo128 =>
    simp only [List.mem_map, List.mem_range]
    rintro c ⟨k, small, rfl⟩
    split_ifs <;> omega
  | direct => exact fun c => List.mem_range.mp
  | others => exact absurd selected valid.1

/-- What the host received is a beginning of the samples, as bytes. -/
theorem received_prefix (valid : Valid sel) (memory : Nat → BitVec (64 * 8)) (moves : List Move) :
    (run (Chain.step sel) (Chain.empty memory) moves).received <+:
      (channelSamples sel (Chain.sampled moves)).flatMap (lanes 8 2) := by
  rw [← forwarded_samples valid, ← Chain.run_bytes sel memory moves]
  exact ⟨_, rfl⟩

theorem length_flatMap_lanes (samples : List (BitVec 16)) :
    (samples.flatMap (lanes 8 2)).length = 2 * samples.length := by
  induction samples with
  | nil => rfl
  | cons sample rest inductionHypothesis =>
    rw [List.flatMap_cons, List.length_append, length_lanes, inductionHypothesis, List.length_cons]
    omega

/-- The samples of a beginning of a stream are those of the stream. -/
theorem ibufsd_of_prefix {received : List (BitVec 8)} {samples : List (BitVec 16)}
    (front : received <+: samples.flatMap (lanes 8 2)) {i : Nat}
    (inside : 2 * i + 2 ≤ received.length) : samples[i]? = some (ibufsd received i) := by
  have bound : i < samples.length := by
    have length := front.length_le
    rw [length_flatMap_lanes] at length
    omega
  obtain ⟨later, whole⟩ := front
  rw [List.getElem?_eq_getElem bound, ← ibufsd_lanes bound, ← whole,
    ibufsd_append_left received later inside]

/-- The chunks that make up a beginning of the samples fill the rows of the selected channels. -/
theorem rows_in_order {sel : BitVec 8} (valid : Valid sel) {words : List (BitVec 256)}
    {chMask : BitVec 32} (mask : setBits chMask = channels sel) {chunks : List (List (BitVec 8))}
    (full : ∀ ibuf ∈ chunks, ibuf.length = nbask)
    (room : chunks.length * nbask ≤ scopeNch * scopeMemLengthMax * 2)
    (taken : chunks.flatten <+: (channelSamples sel words).flatMap (lanes 8 2)) {fuel : Nat}
    (enough : nbask / 2 < fuel) (wavBuf : Nat → BitVec 16) :
    ∃ after, readSave fuel chMask (nPt chMask) ⟨0, 0, []⟩ chunks = some after ∧
      after.iP * (channels sel).length = chunks.length * (nbask / 2) ∧
      ∀ j c, (channels sel)[j]? = some c → ∀ p < after.iP,
        ∃ word, words[p]? = some word ∧
          writeAll wavBuf after.written (j * nPt chMask + p) = part 16 word c := by
  have low : ∀ c ∈ setBits chMask, c < scopeNch := mask ▸ channels_lt valid
  have channelCount : (masked chMask).length = (channels sel).length := by
    rw [masked_eq chMask low, mask]
  have points : nPt chMask = scopeMemLengthMax * (scopeNch / (channels sel).length) := by
    rw [nPt, nCh_eq, mask]
  obtain ⟨positive, perChunk, inside⟩ := chunk_sizes (length_channels valid)
  have rounds : nbask / 2 / (channels sel).length < fuel := (Nat.div_le_self _ _).trans_lt enough
  have read := readSave_eq chMask (nPt chMask) (channelCount ▸ positive)
    (channelCount.symm ▸ perChunk) rounds full ⟨0, 0, []⟩ (by rwa [Nat.zero_add])
  have filled : chunks.length * (nbask / 2 / (channels sel).length) * (channels sel).length =
      chunks.length * (nbask / 2) := by
    rw [Nat.mul_assoc, Nat.eq_div_of_mul_eq_left two_ne_zero perChunk]
  simp only [Nat.zero_add, List.nil_append] at read
  refine ⟨_, read, filled, ?_⟩
  intro j c channel p row
  change p < chunks.length * (nbask / 2 / (channels sel).length) at row
  obtain ⟨small, rfl⟩ := List.getElem?_eq_some_iff.mp channel
  have size : chunks.flatten.length = chunks.length * nbask := by
    rw [List.length_flatten, List.map_congr_left full, List.map_const', List.sum_replicate_nat]
  have place : p * (channels sel).length + j < chunks.length * (nbask / 2) := by
    have next : (p + 1) * (channels sel).length ≤
        chunks.length * (nbask / 2 / (channels sel).length) * (channels sel).length :=
      Nat.mul_le_mul_right _ row
    rw [filled, Nat.succ_mul] at next
    omega
  have bytes : 2 * (p * (channels sel).length + j) + 2 ≤ chunks.flatten.length := by
    have half : nbask = 2 * (nbask / 2) := rfl
    rw [size, half, Nat.mul_left_comm]
    omega
  have sample := ibufsd_of_prefix taken bytes
  rw [channelSamples_getElem? sel _ p small, Option.map_eq_some_iff] at sample
  obtain ⟨word, found, value⟩ := sample
  refine ⟨word, found, ?_⟩
  rw [value, channelCount]
  exact writeAll_rows wavBuf (nPt chMask) _ chunks.flatten (points ▸ inside _ room) small row

/-- Whatever the order in which the FIFOs and the memory pass on their words, the host receives
the samples of the selected channels in their order, and all but those of an unfinished word of
the memory once nothing is left to pass on. From the chunks that it reads, with the mask of
these channels, each channel's samples go to a row of its own. -/
theorem samples_in_order {sel : BitVec 8} (valid : Valid sel) (memory : Nat → BitVec (64 * 8))
    (moves : List Move) (wavBuf : Nat → BitVec 16) :
    let chain := run (Chain.step sel) (Chain.empty memory) moves
    let samples := channelSamples sel (Chain.sampled moves)
    (List.range (chain.received.length / 2)).map (ibufsd chain.received) =
        samples.take (chain.received.length / 2) ∧
      (chain.Idle sel → chain.received.length = 2 * samples.length / 64 * 64) ∧
      ∀ (chMask : BitVec 32) (chunks : List (List (BitVec 8))) (fuel : Nat),
        setBits chMask = channels sel →
        (∀ ibuf ∈ chunks, ibuf.length = nbask) →
        chunks.length * nbask ≤ scopeNch * scopeMemLengthMax * 2 →
        chunks.flatten <+: chain.received →
        nbask / 2 < fuel →
        ∃ after, readSave fuel chMask (nPt chMask) ⟨0, 0, []⟩ chunks = some after ∧
          after.iP * (channels sel).length = chunks.length * (nbask / 2) ∧
          ∀ j c, (channels sel)[j]? = some c → ∀ p < after.iP,
            ∃ word, (Chain.sampled moves)[p]? = some word ∧
              writeAll wavBuf after.written (j * nPt chMask + p) = part 16 word c := by
  intro chain samples
  have front : chain.received <+: samples.flatMap (lanes 8 2) := received_prefix valid memory moves
  refine ⟨?_, ?_, ?_⟩
  · have bound := front.length_le
    rw [length_flatMap_lanes] at bound
    refine List.ext_getElem (by simp; omega) fun i inside _ => ?_
    rw [List.length_map, List.length_range] at inside
    have sample := ibufsd_of_prefix front (i := i) (by omega)
    rw [List.getElem_map, List.getElem_range, List.getElem_take]
    exact ((List.getElem?_eq_some_iff.mp sample).2).symm
  · intro idle
    rw [idle.length_received (Chain.run_whole sel memory moves), Chain.run_bytes sel memory moves,
      forwarded_samples valid, length_flatMap_lanes]
  · intro chMask chunks fuel mask full room taken enough
    exact rows_in_order valid mask full room (taken.trans front) enough wavBuf

/-- With all channels selected, 4096 words from the converters with the number of its channel in
each sample make one chunk, and every row is filled with its number. -/
theorem samples_in_order_sample :
    let word : BitVec 256 := ofLanes ((List.range 16).map (BitVec.ofNat 16))
    ∃ moves, ∃ received,
      (run (Chain.step 0x30) (Chain.empty fun _ => 0) moves).received = received ∧
        Chain.sampled moves = List.replicate 4096 word ∧ received.length = nbask ∧
        ∃ after, readSave 65537 0xffff (nPt 0xffff) ⟨0, 0, []⟩ [received] = some after ∧
          after.iP = 4096 ∧ ∀ j < 16, ∀ p < 4096,
            writeAll (fun _ => 0) after.written (j * nPt 0xffff + p) = BitVec.ofNat 16 j := by
  intro word
  obtain ⟨more, passing, idle⟩ := Chain.exists_idle 0x30
    (run (Chain.step 0x30) (Chain.empty fun _ => 0) (List.replicate 4096 (.sample word)))
  rw [← run_append] at idle
  have unsampled : Chain.sampled more = [] := by
    refine List.filterMap_eq_nil_iff.mpr fun move member => ?_
    cases move with
    | sample indataQ => exact absurd member (passing indataQ)
    | _ => rfl
  have words : Chain.sampled (List.replicate 4096 (.sample word) ++ more) =
      List.replicate 4096 word := by
    unfold Chain.sampled at unsampled ⊢
    rw [List.filterMap_append, unsampled, List.append_nil, List.filterMap_replicate]
  obtain ⟨-, length, rows⟩ := @samples_in_order 0x30 (by decide) (fun _ => 0)
    (List.replicate 4096 (.sample word) ++ more) (fun _ => 0)
  have chunk := length idle
  rw [length_channelSamples, words, List.length_replicate] at chunk
  refine ⟨_, _, rfl, words, chunk, ?_⟩
  obtain ⟨after, read, count, filled⟩ := rows 0xffff [_] 65537 (by decide)
    (List.forall_mem_singleton.mpr chunk) (show 1 * nbask ≤ _ by decide)
    (by rw [List.flatten_singleton]) (by decide)
  have points : after.iP = 4096 := by
    have sixteen : (channels 0x30).length = 16 := by decide
    rw [sixteen, List.length_singleton] at count
    have half : nbask / 2 = 65536 := rfl
    omega
  refine ⟨after, read, points, fun j channel p row => ?_⟩
  have selected : (channels 0x30)[j]? = some j := by
    have all : ∀ j < 16, (channels 0x30)[j]? = some j := by decide
    exact all j channel
  obtain ⟨found, member, value⟩ := filled j j selected p (points.symm ▸ row)
  rw [words, List.getElem?_replicate, if_pos row, Option.some_inj] at member
  rw [value, ← member]
  exact part_ofLanes _ (by omega) (by simpa using channel) |>.trans (by simp)

end K71GbE.Sampling
