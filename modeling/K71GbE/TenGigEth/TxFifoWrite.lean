/-
This file is about the write side of the transmit FIFO, which takes `TLAST` for
`TUSER` and holds its sender back when it is full.

Pointers are counted without a wrap. The last beat that was taken waits in a
register for the next one, so that it can be marked as the end of its frame. As
long as two frames fit into the RAM no frame is dropped: whenever the FIFO is
full, it knows that a complete frame is in it.
-/

import K71GbE.TenGigEth.FifoStreams

namespace K71GbE.TenGigEth

open Clocked

/-! ### The write side over a run -/

namespace WrSide

variable {w longest : Nat} {beats : Nat → TxBeat}

/-- A beat is transferred at the edge. -/
def accepts (side : WrSide w) (axis : WrAxis) : Bool := axis.tvalid && !side.wrFifoFull

/-- Beat `written` waits for the next one, or no beat does. -/
def Piped (beats : Nat → TxBeat) (side : WrSide w) (taken written : Nat) : Prop :=
  written = taken ∧ side.wrEof = false ∧ side.wrRem = 0 ∧ Starts beats taken ∨
    taken = written + 1 ∧ side.wrDataPipe = (beats written).tdata ∧
      side.wrEof = (beats written).tlast ∧ side.wrRem = remainder (beats written).tkeep

/-- The write side when `taken` beats have been transferred and `written` of them are in the RAM.
The last frame known to be complete ends before beat `start`, and the read pointer has come through
the synchronizer as far as `seen 4`. -/
structure Writing (beats : Nat → TxBeat) (side : WrSide w) (taken written start : Nat)
    (seen : Nat → Nat) : Prop where
  piped : side.Piped beats taken written
  wrAddr : side.wrAddr = BitVec.ofNat w written
  wrAddrLast : side.wrAddrLast = BitVec.ofNat w start
  start_le : start ≤ written
  stored : framesBefore beats written = framesBefore beats start + side.wrStoreFrameReg.toNat
  ended : side.wrStoreFrameReg = true → Starts beats written
  store : side.wrStoreFrame = side.wrEof
  tog : side.wrStoreFrameTog = (framesBefore beats taken).bodd
  synced : side.Synced seen
  seen_le : ∀ i, seen (i + 1) ≤ seen i
  room : written + (if side.wrFifoFull then (if side.wrEof then 6 else 5) else 7) ≤
    seen 4 + 2 ^ w
  counted : side.wrFifoFull = true → side.eofBeforeFifoFullSeen = true
  flagged : side.eofBeforeFifoFullSeen = false →
    framesBefore beats written ≤ framesBefore beats (seen 4 + 1) + 1

section Step

variable {side : WrSide w} {taken written start : Nat} {seen : Nat → Nat}
  (writing : side.Writing beats taken written start seen) {axis : WrAxis}

include writing

theorem Writing.room_five : written + 5 ≤ seen 4 + 2 ^ w := by
  have room := writing.room
  split_ifs at room <;> omega

/-- The end of a frame is on its way to the RAM, or every end that was taken is in it. -/
theorem Writing.framesBefore_taken :
    framesBefore beats taken = framesBefore beats written + side.wrEof.toNat := by
  rcases writing.piped with ⟨rfl, eof, _⟩ | ⟨rfl, _, eof, _⟩
  · rw [eof]
    rfl
  · rw [framesBefore_succ, eof]

variable (frames : InFrames longest beats)

include frames

/-- The last beat of a frame is not written while the frame before it is stored. -/
theorem Writing.eof_of_stored (reg : side.wrStoreFrameReg = true) : side.wrEof = false := by
  rcases writing.piped with ⟨_, eof, _⟩ | ⟨_, _, eof, _⟩
  · exact eof
  · rw [eof, frames.not_last (writing.ended reg)]

/-- Two frames are not complete behind the last one known to be. -/
theorem Writing.stored_le :
    framesBefore beats written + side.wrEof.toNat ≤ framesBefore beats start + 1 := by
  have stored := writing.stored
  cases reg : side.wrStoreFrameReg with
  | false =>
    rw [reg] at stored
    have eof := Bool.toNat_le side.wrEof
    simp only [Bool.toNat_false] at stored
    omega
  | true =>
    rw [reg] at stored
    rw [writing.eof_of_stored frames reg]
    exact stored.le

variable (two : 2 * longest + 8 ≤ 2 ^ w)

include two

/-- The flag is taken back only if the reader is at the last beat of the last stored frame. -/
theorem Writing.reached (behind : seen 4 ≤ written)
    (same : side.wrRdAddr = side.wrAddrLast - 1) : seen 4 + 1 = start := by
  have near : written < start + 2 * longest :=
    frames.near ((Nat.le_add_right _ _).trans (writing.stored_le frames))
  have room := writing.room_five
  have start_le := writing.start_le
  rw [writing.synced.wrRdAddr_eq, writing.wrAddrLast] at same
  have pointers : BitVec.ofNat w (seen 4 + 1) = BitVec.ofNat w start := by
    rw [← ofNat_succ, same, sub_add_cancel]
  exact eq_of_ofNat_eq pointers (by omega) (by omega)

/-- Whenever the FIFO becomes full, a complete frame is in it. -/
theorem Writing.flag_of_full (behind : seen 4 ≤ written) (full : seen 4 + 2 ^ w < written + 8) :
    side.eofBeforeFifoFullSeen = true ∧ side.wrRdAddr ≠ side.wrAddrLast - 1 := by
  constructor
  · refine Bool.eq_true_of_not_eq_false fun low => ?_
    have near := frames.near (writing.flagged low)
    omega
  · intro same
    have start_eq := writing.reached frames two behind same
    have near : written < start + 2 * longest :=
      frames.near ((Nat.le_add_right _ _).trans (writing.stored_le frames))
    omega

omit frames in
/-- Under flow control the FIFO is full if less than eight words are free. -/
theorem Writing.full_next (behind : seen 4 ≤ written) (gray : BitVec w) :
    (side.clock axis true gray).wrFifoFull = decide (seen 4 + 2 ^ w < written + 8) := by
  have room := writing.room_five
  have compared := writing.synced.full_iff writing.wrAddr behind (by omega) (by omega)
  simp only [clock, Bool.not_true, Bool.and_false, Bool.false_eq_true, if_false, compared,
    Bool.true_or, if_true]
  split
  · rename_i full
    exact (decide_eq_true full).symm
  · rename_i free
    exact (decide_eq_false free).symm

section Transfer

variable (given : side.accepts axis = true → axis.beat = beats taken)

omit writing two in
include given in
/-- A beat that is transferred is taken into the register. -/
theorem wrEnable_eq : side.wrEnable axis = side.accepts axis := by
  cases accepted : side.accepts axis with
  | false =>
    rw [accepts] at accepted
    rw [wrEnable, Bool.and_assoc, accepted, Bool.and_false]
  | true =>
    have beat := given accepted
    have tkeep : axis.tkeep.getLsbD 0 = true := by
      show axis.beat.tkeep.getLsbD 0 = true
      rw [beat]
      exact (frames.lanes taken).2
    rw [accepts] at accepted
    rw [wrEnable, Bool.and_assoc, accepted, tkeep]
    rfl

omit writing frames two in
/-- The end of a frame is one that is transferred. -/
theorem wrEof_next (tuser : axis.tuser = axis.tlast) (gray : BitVec w) :
    (side.clock axis true gray).wrEof = (side.accepts axis && axis.tlast) := by
  simp only [clock, tuser, Bool.not_true, Bool.false_or, Bool.and_self]
  rw [accepts, Bool.and_assoc, Bool.and_comm]

omit two in
include given in
/-- The beat that waits goes to the RAM with the next one, or at once if it ends its frame. -/
theorem Writing.wrEnableRam_eq : side.wrEnableRam axis =
    (decide (written < taken) && (side.accepts axis || side.wrEof)) := by
  rw [wrEnableRam, wrEnable_eq frames given]
  rcases writing.piped with ⟨rfl, eof, rem, _⟩ | ⟨rfl, _, eof, rem⟩
  · rw [eof, rem, decide_eq_false (Nat.lt_irrefl _)]
    simp
  · rw [decide_eq_true (Nat.lt_succ_self _), Bool.true_and]
    cases last : (beats written).tlast with
    | true => rw [eof, last, Bool.or_true, Bool.or_true]
    | false =>
      rw [rem, frames.remainder_full last]
      simp

omit two in
include given in
theorem Writing.piped_next (tuser : axis.tuser = axis.tlast) (gray : BitVec w) :
    (side.clock axis true gray).Piped beats (taken + (side.accepts axis).toNat)
      (written + (side.wrEnableRam axis).toNat) := by
  have eofNext : (side.clock axis true gray).wrEof = (side.accepts axis && axis.tlast) :=
    wrEof_next tuser gray
  have enable := wrEnable_eq frames given
  rw [writing.wrEnableRam_eq frames given]
  cases accepted : side.accepts axis with
  | true =>
    have beat := given accepted
    have written' : written + (decide (written < taken) && (true || side.wrEof)).toNat = taken := by
      rcases writing.piped with ⟨rfl, _⟩ | ⟨rfl, _⟩
      · rw [decide_eq_false (Nat.lt_irrefl _)]
        rfl
      · rw [decide_eq_true (Nat.lt_succ_self _)]
        rfl
    rw [accepted] at eofNext enable
    rw [written']
    refine Or.inr ⟨rfl, ?_, ?_, ?_⟩
    · simp only [clock, enable, if_true]
      exact congrArg TxBeat.tdata beat
    · rw [eofNext, Bool.true_and]
      exact congrArg TxBeat.tlast beat
    · have tkeep : axis.tkeep = (beats taken).tkeep := congrArg TxBeat.tkeep beat
      simp only [clock, enable, if_true, tkeep]
  | false =>
    rw [accepted] at eofNext enable
    rw [Bool.false_or, Bool.toNat_false, Nat.add_zero]
    rcases writing.piped with ⟨rfl, eof, rem, starts⟩ | ⟨rfl, data, eof, rem⟩
    · rw [decide_eq_false (Nat.lt_irrefl _)]
      refine Or.inl ⟨rfl, eofNext, ?_, starts⟩
      simp only [clock, enable, eof, Bool.false_eq_true, if_false]
      exact rem
    · rw [decide_eq_true (Nat.lt_succ_self _), Bool.true_and]
      cases ends : side.wrEof with
      | true =>
        refine Or.inl ⟨rfl, eofNext, ?_, Or.inr ?_⟩
        · simp only [clock, enable, ends, Bool.false_eq_true, if_false, if_true]
        · rw [Nat.add_sub_cancel, ← eof, ends]
      | false =>
        refine Or.inr ⟨rfl, ?_, ?_, ?_⟩
        · simp only [clock, enable, Bool.false_eq_true, if_false]
          exact data
        · rw [eofNext, Bool.false_and, Bool.toNat_false, Nat.add_zero, ← eof, ends]
        · simp only [clock, enable, ends, Bool.false_eq_true, if_false]
          exact rem

omit frames two in
/-- No frame is dropped. -/
theorem Writing.wrAddr_next (tuser : axis.tuser = axis.tlast) (gray : BitVec w) :
    (side.clock axis true gray).wrAddr =
      BitVec.ofNat w (written + (side.wrEnableRam axis).toNat) := by
  have kept : (axis.tlast && side.wrFifoFull && !true || axis.tlast && !axis.tuser ||
      !side.eofBeforeFifoFullSeen && side.wrFifoFull) = false := by
    rw [tuser]
    cases full : side.wrFifoFull with
    | false => simp
    | true => simp [writing.counted full]
  simp only [clock, kept, Bool.false_eq_true, if_false]
  cases side.wrEnableRam axis with
  | false => exact writing.wrAddr
  | true => rw [if_pos rfl, writing.wrAddr, ofNat_succ, Bool.toNat_true]

omit two in
include given in
/-- The frames in the RAM after the edge. -/
theorem Writing.framesBefore_written :
    framesBefore beats (written + (side.wrEnableRam axis).toNat) =
      framesBefore beats written + side.wrEof.toNat := by
  rw [writing.wrEnableRam_eq frames given]
  rcases writing.piped with ⟨rfl, eof, _⟩ | ⟨rfl, _, eof, _⟩
  · rw [decide_eq_false (Nat.lt_irrefl _), eof]
    rfl
  · rw [decide_eq_true (Nat.lt_succ_self _), Bool.true_and]
    cases last : (beats written).tlast with
    | true =>
      rw [eof, last, Bool.or_true, Bool.toNat_true, framesBefore_succ, last, Bool.toNat_true]
    | false =>
      rw [eof, last, Bool.or_false]
      cases side.accepts axis with
      | false => rfl
      | true => rw [Bool.toNat_true, framesBefore_succ, last]

include given in
/-- The free words after the edge. -/
theorem Writing.room_next (behind : seen 4 ≤ written) (tuser : axis.tuser = axis.tlast)
    (gray : BitVec w) :
    written + (side.wrEnableRam axis).toNat +
      (if (side.clock axis true gray).wrFifoFull then
        (if (side.clock axis true gray).wrEof then 6 else 5) else 7) ≤ seen 4 + 2 ^ w := by
  have room := writing.room
  rw [writing.full_next two behind, wrEof_next tuser, writing.wrEnableRam_eq frames given]
  cases full : side.wrFifoFull with
  | true =>
    have refused : side.accepts axis = false := by rw [accepts, full, Bool.not_true, Bool.and_false]
    rw [full, if_pos rfl] at room
    rw [refused, Bool.false_or, Bool.false_and, if_neg Bool.false_ne_true]
    have one := Bool.toNat_le (decide (written < taken) && side.wrEof)
    cases eof : side.wrEof with
    | true =>
      rw [eof, if_pos rfl] at room
      rw [eof] at one
      split_ifs with less <;> simp only [decide_eq_true_eq] at less <;> omega
    | false =>
      rw [eof, if_neg Bool.false_ne_true] at room
      rw [Bool.and_false, Bool.toNat_false]
      split_ifs with less <;> simp only [decide_eq_true_eq] at less <;> omega
  | false =>
    rw [full, if_neg Bool.false_ne_true] at room
    have one := Bool.toNat_le (decide (written < taken) && (side.accepts axis || side.wrEof))
    split_ifs with less <;> simp only [decide_eq_true_eq] at less <;> omega

/-- One edge of the write clock. -/
theorem Writing.next (behind : seen 4 ≤ written) (tuser : axis.tuser = axis.tlast)
    (given : side.accepts axis = true → axis.beat = beats taken) {sampled : Nat}
    (later : seen 0 ≤ sampled) :
    (side.clock axis true (Gray.encode (BitVec.ofNat w sampled))).Writing beats
      (taken + (side.accepts axis).toNat) (written + (side.wrEnableRam axis).toNat)
      (if side.wrStoreFrameReg then written else start) (shifted sampled seen) := by
  have eofNext : (side.clock axis true (Gray.encode (BitVec.ofNat w sampled))).wrEof =
      (side.accepts axis && axis.tlast) := wrEof_next tuser _
  have fullNext : (side.clock axis true (Gray.encode (BitVec.ofNat w sampled))).wrFifoFull =
      decide (seen 4 + 2 ^ w < written + 8) := writing.full_next two behind _
  have ends := writing.framesBefore_written frames given
  have arrived : seen 4 ≤ shifted sampled seen 4 := writing.seen_le 3
  refine ⟨writing.piped_next frames given tuser _, writing.wrAddr_next tuser _, ?_, ?_, ?_,
    fun reg => ?_, ?_, ?_, writing.synced.next axis true sampled, shifted_le later writing.seen_le,
    ?_, fun full => ?_, fun low => ?_⟩
  · simp only [clock]
    split
    · exact writing.wrAddr
    · exact writing.wrAddrLast
  · have start_le := writing.start_le
    split <;> omega
  · have stored := writing.stored
    have reg : (side.clock axis true (Gray.encode (BitVec.ofNat w sampled))).wrStoreFrameReg =
        side.wrEof := writing.store
    rw [ends, reg]
    cases stores : side.wrStoreFrameReg with
    | true => rw [if_pos rfl]
    | false =>
      rw [stores, Bool.toNat_false, Nat.add_zero] at stored
      rw [if_neg Bool.false_ne_true, stored]
  · have eof : side.wrEof = true := writing.store.symm.trans reg
    rcases writing.piped with ⟨_, low, _⟩ | ⟨rfl, _, last, _⟩
    · rw [eof] at low
      cases low
    · rw [writing.wrEnableRam_eq frames given, eof, Bool.or_true, Bool.and_true,
        decide_eq_true (Nat.lt_succ_self _)]
      exact Or.inr (last.symm.trans eof)
  · rw [eofNext]
    simp only [clock, tuser]
    rw [accepts, Bool.and_assoc, Bool.and_comm]
  · have moved : framesBefore beats (taken + (side.accepts axis).toNat) =
        framesBefore beats taken + (side.accepts axis && axis.tlast).toNat := by
      cases accepted : side.accepts axis with
      | false => rfl
      | true =>
        have last : axis.tlast = (beats taken).tlast := congrArg TxBeat.tlast (given accepted)
        rw [Bool.toNat_true, framesBefore_succ, last, Bool.true_and]
    have kept : (axis.tuser && axis.tvalid && !side.wrFifoFull) =
        (side.accepts axis && axis.tlast) := by
      rw [tuser, accepts, Bool.and_assoc, Bool.and_comm]
    rw [moved]
    simp only [clock, kept]
    cases side.accepts axis && axis.tlast with
    | false => exact writing.tog
    | true => rw [if_pos rfl, Bool.toNat_true, Nat.bodd_succ, writing.tog]
  · have room := writing.room_next frames two given behind tuser
      (Gray.encode (BitVec.ofNat w sampled))
    omega
  · rw [fullNext, decide_eq_true_eq] at full
    obtain ⟨flag, apart⟩ := writing.flag_of_full frames two behind full
    simp only [clock, apart, if_false, flag, ite_self]
  · rw [ends]
    have mono : framesBefore beats (seen 4 + 1) ≤
        framesBefore beats (shifted sampled seen 4 + 1) := framesBefore_mono (by omega)
    by_cases reached : side.wrRdAddr = side.wrAddrLast - 1
    · have stored := writing.stored_le frames
      rw [← writing.reached frames two behind reached] at stored
      omega
    · simp only [clock, reached, if_false] at low
      split at low
      · cases low
      · rename_i kept
        have flagged := writing.flagged low
        have free : side.wrFifoFull = false := Bool.eq_false_of_not_eq_true fun full => by
          rw [writing.counted full] at low
          cases low
        rw [free, Bool.not_false, Bool.and_true, Bool.not_eq_true] at kept
        rw [kept, Bool.toNat_false]
        omega

end Transfer

end Step

end WrSide

/-- What is written to the RAM is the beat that waited. -/
theorem WrSide.Writing.holds {w longest : Nat} {beats : Nat → TxBeat} {side : WrSide w}
    {taken written start read : Nat} {seen : Nat → Nat}
    (writing : side.Writing beats taken written start seen) (frames : InFrames longest beats)
    {axis : WrAxis} (given : side.accepts axis = true → axis.beat = beats taken)
    (behind : seen 4 ≤ read) {ram : BitVec w → RamWord} (holds : Holds beats ram read written) :
    Holds beats
      (if side.wrEnableRam axis then Function.update ram side.wrAddr side.ramWord else ram) read
      (written + (side.wrEnableRam axis).toNat) := by
  have room := writing.room_five
  cases enabled : side.wrEnableRam axis with
  | false => exact holds
  | true =>
    rw [writing.wrEnableRam_eq frames given, Bool.and_eq_true, decide_eq_true_eq] at enabled
    have word : side.ramWord = (beats written).ramWord := by
      rcases writing.piped with ⟨same, _⟩ | ⟨_, data, eof, rem⟩
      · exact absurd enabled.1 (by omega)
      · rw [WrSide.ramWord, data, eof, rem]
        rfl
    rw [if_pos rfl, word, writing.wrAddr]
    exact holds.update (by omega)

end K71GbE.TenGigEth
