/-
This file is about what the frame stores between two clocks rest on: streams of
beats in frames, pointers counted without a wrap, and registers in a chain.
-/

import Mathlib.Data.Nat.Bits
import K71GbE.Clocked.Frames
import K71GbE.TenGigEth.AxiFifo

namespace K71GbE.TenGigEth

open Clocked

/-! ### Streams in frames -/

/-- A stream of beats in frames of two beats at least. All lanes are in use but for the last beat
of a frame, which uses the lowest ones. -/
structure FramedBeats (beats : Nat → TxBeat) : Prop where
  first : (beats 0).tlast = false
  spaced : ∀ i, (beats i).tlast = true → (beats (i + 1)).tlast = false
  full : ∀ i, (beats i).tlast = false → (beats i).tkeep = 0b11111111
  lowest : ∀ i, ∃ lanes, (beats i).tkeep = tkeepOf lanes

/-- And of `longest` beats at most. -/
structure InFrames (longest : Nat) (beats : Nat → TxBeat) : Prop extends FramedBeats beats where
  short : ∀ p, ∃ i, p ≤ i ∧ i < p + longest ∧ (beats i).tlast = true

/-- The frames that end before beat `p`. -/
def framesBefore (beats : Nat → TxBeat) (p : Nat) : Nat :=
  Nat.count (fun i => (beats i).tlast = true) p

/-- A frame starts with beat `p`. -/
def Starts (beats : Nat → TxBeat) (p : Nat) : Prop := p = 0 ∨ (beats (p - 1)).tlast = true

theorem tkeep_round_trip (lanes : BitVec 3) :
    tkeepOf (remainder (tkeepOf lanes)) = tkeepOf lanes ∧ (tkeepOf lanes).getLsbD 0 = true := by
  revert lanes
  decide

section Stream

variable {longest : Nat} {beats : Nat → TxBeat}

theorem framesBefore_mono {p q : Nat} (le : p ≤ q) :
    framesBefore beats p ≤ framesBefore beats q := Nat.count_monotone _ le

theorem framesBefore_succ (p : Nat) :
    framesBefore beats (p + 1) = framesBefore beats p + (beats p).tlast.toNat := by
  rw [framesBefore, Nat.count_succ]
  cases (beats p).tlast <;> rfl

/-- No frame ends within beats that are not marked. -/
theorem framesBefore_add {p count : Nat} (inner : ∀ i < count, (beats (p + i)).tlast = false) :
    framesBefore beats (p + count) = framesBefore beats p := by
  induction count with
  | zero => rfl
  | succ count inductionHypothesis =>
    rw [← Nat.add_assoc, framesBefore_succ, inner count (Nat.lt_succ_self _), Bool.toNat_false,
      Nat.add_zero]
    exact inductionHypothesis fun i less => inner i (Nat.lt_succ_of_lt less)

theorem lt_of_framesBefore (beats : Nat → TxBeat) {p q : Nat}
    (less : framesBefore beats p < framesBefore beats q) : p < q := Nat.lt_of_count_lt_count less

variable (frames : FramedBeats beats)

include frames

theorem FramedBeats.lanes (i : Nat) :
    tkeepOf (remainder (beats i).tkeep) = (beats i).tkeep ∧
      (beats i).tkeep.getLsbD 0 = true := by
  obtain ⟨lanes, tkeep⟩ := frames.lowest i
  rw [tkeep]
  exact tkeep_round_trip lanes

theorem FramedBeats.remainder_full {i : Nat} (inside : (beats i).tlast = false) :
    remainder (beats i).tkeep = 0b111 := by
  rw [frames.full i inside]
  decide

/-- The first beat of a frame is not its last one. -/
theorem FramedBeats.not_last {p : Nat} (starts : Starts beats p) : (beats p).tlast = false := by
  rcases starts with rfl | last
  · exact frames.first
  · cases p with
    | zero => exact frames.first
    | succ p => exact frames.spaced p last

theorem FramedBeats.spread {p q : Nat} (le : p ≤ q) :
    2 * framesBefore beats q ≤ 2 * framesBefore beats p + (q - p) + 1 :=
  count_spaced (fun i last next => by rw [frames.spaced i last] at next; cases next) le

/-- A word of the RAM gives its beat back. -/
theorem FramedBeats.word (p : Nat) :
    tkeepOf ((beats p).ramWord.ctrl.setWidth 3) = (beats p).tkeep ∧
      (beats p).ramWord.ctrl.getLsbD 3 = (beats p).tlast := by
  have parts (last : Bool) (rem : BitVec 3) :
      (BitVec.ofBool last ++ rem).setWidth 3 = rem ∧
        (BitVec.ofBool last ++ rem).getLsbD 3 = last := by
    revert last rem
    decide
  obtain ⟨rem, last⟩ := parts (beats p).tlast (remainder (beats p).tkeep)
  exact ⟨(congrArg tkeepOf rem).trans (frames.lanes p).1, last⟩

omit frames in
/-- Beats with one end of a frame among them are less than two frames. -/
theorem InFrames.near (frames : InFrames longest beats) {p q : Nat}
    (ends : framesBefore beats q ≤ framesBefore beats p + 1) :
    q < p + 2 * longest := by
  have positive : 0 < longest := by
    obtain ⟨i, after, before, _⟩ := frames.short 0
    omega
  rcases Nat.le_total p q with le | ge
  · have gap : q - p < (framesBefore beats q - framesBefore beats p + 1) * longest :=
      count_gap frames.short le
    have most : (framesBefore beats q - framesBefore beats p + 1) * longest ≤ 2 * longest :=
      Nat.mul_le_mul_right longest (by omega)
    omega
  · omega

end Stream

/-! ### Pointers without a wrap -/

section Pointers

variable {w : Nat}

theorem ofNat_succ (n : Nat) : BitVec.ofNat w n + 1 = BitVec.ofNat w (n + 1) := by
  rw [BitVec.ofNat_add]
  rfl

theorem eq_of_ofNat_eq {a b : Nat} (same : BitVec.ofNat w a = BitVec.ofNat w b)
    (below : a < b + 2 ^ w) (above : b < a + 2 ^ w) : a = b := by
  have congruent : a ≡ b [MOD 2 ^ w] := by
    have values := congrArg BitVec.toNat same
    rwa [BitVec.toNat_ofNat, BitVec.toNat_ofNat] at values
  rcases Nat.le_total a b with le | le
  · have zero := Nat.eq_zero_of_dvd_of_lt ((Nat.modEq_iff_dvd' le).mp congruent) (by omega)
    omega
  · have zero := Nat.eq_zero_of_dvd_of_lt ((Nat.modEq_iff_dvd' le).mp congruent.symm) (by omega)
    omega

/-- The difference of the pointers: the free words, or none if the FIFO is empty. -/
theorem toNat_pointers {read written : Nat} (room : written ≤ read + 2 ^ w) :
    (BitVec.ofNat w read - BitVec.ofNat w written).toNat = (read + 2 ^ w - written) % 2 ^ w := by
  have difference : BitVec.ofNat w read - BitVec.ofNat w written =
      BitVec.ofNat w (read + 2 ^ w - written) := by
    rw [sub_eq_iff_eq_add, ← BitVec.ofNat_add, Nat.sub_add_cancel room]
    exact BitVec.eq_of_toNat_eq (by rw [BitVec.toNat_ofNat, BitVec.toNat_ofNat, Nat.add_mod_right])
  rw [difference, BitVec.toNat_ofNat]

theorem positive_of_eight (eight : 8 ≤ 2 ^ w) : 0 < w := by
  rcases Nat.eq_zero_or_pos w with rfl | positive
  · exact absurd eight (by decide)
  · exact positive

/-- What `p_wr_full` compares: at least one word of the difference and less than eight. -/
theorem low_difference (difference : BitVec w) :
    (difference >>> 3 = 0 ∧ difference.setWidth 3 ≠ 0) ↔
      0 < difference.toNat ∧ difference.toNat < 8 := by
  have high : difference >>> 3 = 0 ↔ difference.toNat < 8 := by
    rw [← BitVec.toNat_inj, BitVec.toNat_ushiftRight, Nat.shiftRight_eq_div_pow]
    simp only [BitVec.ofNat_eq_ofNat, BitVec.toNat_ofNat, Nat.zero_mod]
    omega
  have low : difference.setWidth 3 = 0 ↔ difference.toNat % 8 = 0 := by
    rw [← BitVec.toNat_inj, BitVec.toNat_setWidth]
    rfl
  rw [high, Ne, low]
  omega

end Pointers

/-- A chain of registers after an edge. -/
def shifted (first : Nat) (chain : Nat → Nat) : Nat → Nat
  | 0 => first
  | i + 1 => chain i

theorem shifted_le {first : Nat} {chain : Nat → Nat} (later : chain 0 ≤ first)
    (falls : ∀ i, chain (i + 1) ≤ chain i) (i : Nat) :
    shifted first chain (i + 1) ≤ shifted first chain i := by
  cases i with
  | zero => exact later
  | succ i => exact falls i

/-- The level that comes next into a chain only rises. -/
theorem shifted_mono {first next : Nat} (le : first ≤ next) (chain : Nat → Nat) (i : Nat) :
    shifted first chain i ≤ shifted next chain i := by
  cases i with
  | zero => exact le
  | succ i => exact le_rfl

/-! ### The read pointer on the write side -/

namespace WrSide

variable {w : Nat}

/-- The read pointer has come through the synchronizer as far as `seen 4`. -/
structure Synced (side : WrSide w) (seen : Nat → Nat) : Prop where
  gray : side.wrRdAddrGray = Gray.encode (BitVec.ofNat w (seen 0))
  grayD1 : side.wrRdAddrGrayD1 = Gray.encode (BitVec.ofNat w (seen 1))
  grayD2 : side.wrRdAddrGrayD2 = Gray.encode (BitVec.ofNat w (seen 2))
  grayD3 : side.wrRdAddrGrayD3 = Gray.encode (BitVec.ofNat w (seen 3))
  grayD4 : side.wrRdAddrGrayD4 = Gray.encode (BitVec.ofNat w (seen 4))

theorem synced_reset (side : WrSide w) : side.reset.Synced fun _ => 0 := by
  have code : (0 : BitVec w) = Gray.encode (BitVec.ofNat w 0) := by simp [Gray.encode]
  exact ⟨code, code, code, code, code⟩

section Synced

variable {side : WrSide w} {seen : Nat → Nat} (synced : side.Synced seen)

include synced

theorem Synced.next (axis : WrAxis) (wrFlowCtrl : Bool) (sampled : Nat) :
    (side.clock axis wrFlowCtrl (Gray.encode (BitVec.ofNat w sampled))).Synced
      (shifted sampled seen) :=
  ⟨rfl, synced.gray, synced.grayD1, synced.grayD2, synced.grayD3⟩

theorem Synced.wrRdAddr_eq : side.wrRdAddr = BitVec.ofNat w (seen 4) := by
  rw [wrRdAddr, synced.grayD4, grayToBin_encode]

/-- What `p_wr_full` finds: less than eight words are free. -/
theorem Synced.full_iff {written : Nat} (wrAddr : side.wrAddr = BitVec.ofNat w written)
    (behind : seen 4 ≤ written) (room : written < seen 4 + 2 ^ w) (eight : 8 ≤ 2 ^ w) :
    (side.wrAddrDiffComb >>> 3 = 0 ∧ side.wrAddrDiffComb.setWidth 3 ≠ 0) ↔
      seen 4 + 2 ^ w < written + 8 := by
  have difference : side.wrAddrDiffComb.toNat = (seen 4 + 2 ^ w - written) % 2 ^ w := by
    rw [wrAddrDiffComb, synced.wrRdAddr_eq, wrAddr]
    exact toNat_pointers room.le
  rw [low_difference, difference]
  rcases Nat.lt_or_ge (seen 4 + 2 ^ w - written) (2 ^ w) with stored | empty
  · rw [Nat.mod_eq_of_lt stored]
    omega
  · rw [show seen 4 + 2 ^ w - written = 2 ^ w by omega, Nat.mod_self]
    omega

end Synced

end WrSide

/-! ### The RAM -/

section Ram

variable {w : Nat} {beats : Nat → TxBeat} {ram : BitVec w → RamWord} {read written : Nat}

/-- The RAM holds the beats that have been written and not been read. -/
def Holds (beats : Nat → TxBeat) (ram : BitVec w → RamWord) (read written : Nat) : Prop :=
  ∀ p, read ≤ p → p < written → ram (BitVec.ofNat w p) = (beats p).ramWord

theorem Holds.mono (holds : Holds beats ram read written) {later : Nat} (le : read ≤ later) :
    Holds beats ram later written := fun p after => holds p (le.trans after)

theorem Holds.update (holds : Holds beats ram read written) (room : written < read + 2 ^ w) :
    Holds beats (Function.update ram (BitVec.ofNat w written) (beats written).ramWord) read
      (written + 1) := by
  intro p after before
  rcases Nat.lt_succ_iff_lt_or_eq.mp before with less | rfl
  · have apart : BitVec.ofNat w p ≠ BitVec.ofNat w written := fun same =>
      less.ne (eq_of_ofNat_eq same (by omega) (by omega))
    rw [Function.update_of_ne apart]
    exact holds p after less
  · rw [Function.update_self]

end Ram

end K71GbE.TenGigEth
