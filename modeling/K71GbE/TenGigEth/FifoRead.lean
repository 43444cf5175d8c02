/-
This file is about the read side of the frame stores.

The side learns of a stored frame from a level that changes with every one, and it
begins to read a frame only when it has counted it. From then on every word that it
reads ahead is in the RAM, so the beats come without a gap up to the last one of the
frame.
-/

import K71GbE.TenGigEth.FifoStreams

namespace K71GbE.TenGigEth

open Clocked

namespace RdSide

variable {w : Nat} {beats : Nat → TxBeat}

/-- What the state machine has done: `delivered` beats have been transferred, words up to `read`
have been fetched, and `begun` frames have been taken off the counter. -/
def Phase (beats : Nat → TxBeat) (side : RdSide w) (delivered read begun : Nat) : Prop :=
  match side.rdState with
  | .idle | .init1 =>
    read = delivered ∧ begun = framesBefore beats delivered ∧ Starts beats delivered ∧
      side.rdAxisTvalid = false
  | .init2 =>
    read = delivered + 1 ∧ begun = framesBefore beats delivered + 1 ∧ Starts beats delivered ∧
      side.rdAxisTvalid = false ∧ side.rdWord = (beats delivered).ramWord
  | .inProgress =>
    read = delivered + 2 ∧ begun = framesBefore beats delivered + 1 ∧
      side.rdAxisTvalid = true ∧ side.beat = beats delivered ∧ (beats delivered).tlast = false ∧
      side.rdWord = (beats (delivered + 1)).ramWord
  | .endOfFrame =>
    read = delivered + 1 ∧ begun = framesBefore beats delivered + 1 ∧
      side.rdAxisTvalid = true ∧ side.beat = beats delivered ∧ (beats delivered).tlast = true

/-- The read side. The level of the write side has come through the synchronizer as it was after
`known 4` frames, and `known 5` frames have been counted. -/
structure Reading (beats : Nat → TxBeat) (side : RdSide w) (delivered read gray begun : Nat)
    (known : Nat → Nat) : Prop where
  phase : side.Phase beats delivered read begun
  rdAddr : side.rdAddr = BitVec.ofNat w read
  rdAddrGrayReg : side.rdAddrGrayReg = Gray.encode (BitVec.ofNat w gray)
  gray_le : gray ≤ read
  read_le : read ≤ gray + 1
  tog : side.rdStoreFrameTog = (known 0).bodd
  togD1 : side.rdStoreFrameTogD1 = (known 1).bodd
  togD2 : side.rdStoreFrameTogD2 = (known 2).bodd
  togD3 : side.rdStoreFrameTogD3 = (known 3).bodd
  sync : side.rdStoreFrameSync = (known 4).bodd
  known_le : ∀ i, known (i + 1) ≤ known i
  near : ∀ i, known i ≤ known (i + 1) + 1
  store : side.rdStoreFrame = decide (known 5 < known 4)
  begun_le : begun ≤ known 5
  rdFrames : side.rdFrames = BitVec.ofNat (w - 1) (known 5 - begun)
  avail : side.rdAvail = true → side.rdState ≠ .init1 → side.rdState ≠ .init2 → begun < known 5
  starting : side.rdState = .init1 → begun < known 5

/-- A word that goes to the read interface becomes its beat. -/
theorem beat_next (frames : FramedBeats beats) {side : RdSide w} {tready : Bool} {p : Nat}
    (takes : side.takes tready = true) (word : side.rdWord = (beats p).ramWord)
    (inside : side.rdState ≠ .inProgress → (beats p).tlast = false) (tog : Bool)
    (ram : BitVec w → RamWord) : (side.clock tready tog ram).beat = beats p := by
  obtain ⟨tkeep, tlast⟩ := frames.word p
  have last : (decide (side.rdState = .inProgress) && side.eof) = (beats p).tlast := by
    by_cases reading : side.rdState = .inProgress
    · rw [decide_eq_true reading, Bool.true_and, eof, word, tlast]
    · rw [decide_eq_false reading, Bool.false_and, inside reading]
  simp only [beat, clock, takes, if_true, last, word, tkeep]
  rfl

/-- A frame is begun only when one is available. -/
theorem init1_step {side : RdSide w} {tready : Bool} (next : side.nextState tready = .init1) :
    side.rdAvail = true ∧ side.rdState ≠ .init1 ∧ side.rdState ≠ .init2 := by
  rw [nextState] at next
  cases state : side.rdState with
  | idle =>
    rw [state] at next
    simp only at next
    split at next
    · rename_i avail
      exact ⟨avail, by decide, by decide⟩
    · cases next
  | init1 | init2 =>
    rw [state] at next
    cases next
  | inProgress =>
    rw [state] at next
    simp only at next
    split at next <;> cases next
  | endOfFrame =>
    rw [state] at next
    simp only at next
    split at next
    · split at next
      · rename_i avail
        exact ⟨avail, by decide, by decide⟩
      · cases next
    · cases next

section Step

variable {side : RdSide w} {delivered read gray begun written : Nat} {known : Nat → Nat}
  (reading : side.Reading beats delivered read gray begun known)
  (frames : FramedBeats beats)
  (stored : known 4 ≤ framesBefore beats written)

include reading

theorem Reading.delivered_le : delivered ≤ read ∧ read ≤ delivered + 2 := by
  have phase := reading.phase
  rw [Phase] at phase
  split at phase <;> omega

/-- The frames begun are those of the beats delivered, and possibly the one under way. -/
theorem Reading.begun_cases :
    read = delivered ∧ begun = framesBefore beats delivered ∨
      begun = framesBefore beats delivered + 1 := by
  have phase := reading.phase
  rw [Phase] at phase
  split at phase
  · exact Or.inl ⟨phase.1, phase.2.1⟩
  · exact Or.inl ⟨phase.1, phase.2.1⟩
  · exact Or.inr phase.2.1
  · exact Or.inr phase.2.1
  · exact Or.inr phase.2.1

include frames stored

/-- The counter of the frames does not overflow: frames have two words. -/
theorem Reading.few (positive : 0 < w) (le : read ≤ written) (room : written + 5 ≤ read + 2 ^ w) :
    framesBefore beats written + 2 ≤ begun + 2 ^ (w - 1) ∧ known 5 + 2 ≤ begun + 2 ^ (w - 1) := by
  have double : 2 ^ w = 2 * 2 ^ (w - 1) := by
    rw [← Nat.pow_succ', Nat.succ_eq_add_one, Nat.sub_add_cancel positive]
  have spread := frames.spread (reading.delivered_le.1.trans le)
  have bound := reading.delivered_le.2
  have counted : known 5 ≤ known 4 := reading.known_le 4
  rcases reading.begun_cases with ⟨rfl, begins⟩ | begins <;> omega

/-- Every word that is fetched is in the RAM. -/
theorem Reading.fetched_lt {tready : Bool} (enabled : side.rdEnable tready = true) :
    read < written := by
  have phase := reading.phase
  have counted : known 5 ≤ known 4 := reading.known_le 4
  have begun_le := reading.begun_le
  have same {p : Nat} (inside : (beats p).tlast = false) :
      framesBefore beats (p + 1) = framesBefore beats p := by
    rw [framesBefore_succ, inside, Bool.toNat_false, Nat.add_zero]
  rw [Phase] at phase
  rw [rdEnable] at enabled
  cases state : side.rdState with
  | init1 =>
    rw [state] at phase
    obtain ⟨rfl, rfl, _⟩ := phase
    have starting := reading.starting state
    exact lt_of_framesBefore beats (by omega)
  | init2 =>
    rw [state] at phase
    obtain ⟨rfl, rfl, starts, _⟩ := phase
    refine lt_of_framesBefore beats ?_
    rw [same (frames.not_last starts)]
    omega
  | inProgress =>
    rw [state] at phase enabled
    obtain ⟨rfl, rfl, _, _, inside, word⟩ := phase
    have more : (beats (delivered + 1)).tlast = false := by
      rw [Bool.and_eq_true, Bool.not_eq_true', eof, word, (frames.word _).2] at enabled
      exact enabled.1
    refine lt_of_framesBefore beats ?_
    rw [same more, same inside]
    omega
  | idle =>
    rw [state] at enabled
    cases enabled
  | endOfFrame =>
    rw [state] at enabled
    cases enabled

section Fetch

variable {tready : Bool} {ram : BitVec w → RamWord}
  (fetched : side.rdEnable tready = true → ram side.rdAddr = (beats read).ramWord)

omit stored in
include fetched in
/-- The state machine at an edge: a beat is transferred, a word is fetched. -/
theorem Reading.phase_next (tog : Bool) :
    (side.clock tready tog ram).Phase beats
      (delivered + (side.rdAxisTvalid && tready).toNat) (read + (side.rdEnable tready).toNat)
      (begun + (decide (side.rdState = .init1)).toNat) := by
  have phase := reading.phase
  rw [Phase] at phase
  cases state : side.rdState with
  | idle =>
    rw [state] at phase
    obtain ⟨rfl, rfl, starts, quiet⟩ := phase
    have enabled : side.rdEnable tready = false := by rw [rdEnable, state]
    have still : (side.clock tready tog ram).rdAxisTvalid = false := by
      simp only [clock, state]
      exact quiet
    rw [quiet, enabled, Bool.false_and]
    cases avail : side.rdAvail with
    | false =>
      have next : (side.clock tready tog ram).rdState = .idle := by
        show side.nextState tready = _
        rw [nextState, state, avail]
        rfl
      rw [Phase, next]
      exact ⟨rfl, rfl, starts, still⟩
    | true =>
      have next : (side.clock tready tog ram).rdState = .init1 := by
        show side.nextState tready = _
        rw [nextState, state, avail]
        rfl
      rw [Phase, next]
      exact ⟨rfl, rfl, starts, still⟩
  | init1 =>
    rw [state] at phase
    obtain ⟨rfl, rfl, starts, quiet⟩ := phase
    have enabled : side.rdEnable tready = true := by rw [rdEnable, state]
    have next : (side.clock tready tog ram).rdState = .init2 := by
      show side.nextState tready = _
      rw [nextState, state]
    rw [Phase, next, quiet, enabled, Bool.false_and]
    refine ⟨rfl, rfl, starts, ?_, ?_⟩
    · simp only [clock, state]
      exact quiet
    · simp only [clock, enabled, if_true]
      exact fetched enabled
  | init2 =>
    rw [state] at phase
    obtain ⟨rfl, rfl, starts, quiet, word⟩ := phase
    have enabled : side.rdEnable tready = true := by rw [rdEnable, state]
    have next : (side.clock tready tog ram).rdState = .inProgress := by
      show side.nextState tready = _
      rw [nextState, state]
    have first := frames.not_last starts
    have takes : side.takes tready = true := by simp [RdSide.takes, state]
    rw [Phase, next, quiet, enabled, Bool.false_and]
    refine ⟨rfl, rfl, ?_, ?_, first, ?_⟩
    · simp only [clock, state, if_true]
    · exact beat_next frames takes word (fun _ => first) tog ram
    · simp only [clock, enabled, if_true]
      exact fetched enabled
  | inProgress =>
    rw [state] at phase
    obtain ⟨rfl, rfl, valid, onBus, inside, word⟩ := phase
    have ends : side.eof = (beats (delivered + 1)).tlast := by
      rw [eof, word, (frames.word _).2]
    cases tready with
    | false =>
      have enabled : side.rdEnable false = false := by rw [rdEnable, state, Bool.and_false]
      have next : (side.clock false tog ram).rdState = .inProgress := by
        show side.nextState false = _
        rw [nextState, state]
        rfl
      have takes : side.takes false = false := by simp [RdSide.takes, state]
      rw [Phase, next, enabled, Bool.and_false]
      refine ⟨rfl, rfl, ?_, ?_, inside, ?_⟩
      · simp only [clock, state]
        exact valid
      · simp only [beat, clock, takes, Bool.false_eq_true, if_false]
        exact onBus
      · simp only [clock, enabled, Bool.false_eq_true, if_false]
        exact word
    | true =>
      have takes : side.takes true = true := by simp [RdSide.takes, state]
      have shown := beat_next frames takes word (fun other => absurd state other) tog ram
      have still : (side.clock true tog ram).rdAxisTvalid = true := by
        simp only [clock, state]
        exact valid
      have same : framesBefore beats (delivered + 1) = framesBefore beats delivered := by
        rw [framesBefore_succ, inside, Bool.toNat_false, Nat.add_zero]
      rw [valid, Bool.true_and, Bool.toNat_true]
      cases last : (beats (delivered + 1)).tlast with
      | false =>
        have enabled : side.rdEnable true = true := by
          rw [rdEnable, state]
          show (!side.eof && true) = true
          rw [ends, last]
          rfl
        have next : (side.clock true tog ram).rdState = .inProgress := by
          show side.nextState true = _
          rw [nextState, state]
          show (if (true && side.eof) = true then RdState.endOfFrame else .inProgress) = _
          rw [ends, last]
          rfl
        rw [Phase, next, enabled]
        refine ⟨rfl, by rw [same]; rfl, still, shown, last, ?_⟩
        simp only [clock, enabled, if_true]
        exact fetched enabled
      | true =>
        have enabled : side.rdEnable true = false := by
          rw [rdEnable, state]
          show (!side.eof && true) = false
          rw [ends, last]
          rfl
        have next : (side.clock true tog ram).rdState = .endOfFrame := by
          show side.nextState true = _
          rw [nextState, state]
          show (if (true && side.eof) = true then RdState.endOfFrame else .inProgress) = _
          rw [ends, last]
          rfl
        rw [Phase, next, enabled]
        exact ⟨rfl, by rw [same]; rfl, still, shown, last⟩
  | endOfFrame =>
    rw [state] at phase
    obtain ⟨rfl, rfl, valid, onBus, last⟩ := phase
    have enabled : side.rdEnable tready = false := by rw [rdEnable, state]
    rw [valid, Bool.true_and, enabled]
    cases tready with
    | false =>
      have next : (side.clock false tog ram).rdState = .endOfFrame := by
        show side.nextState false = _
        rw [nextState, state]
        rfl
      have takes : side.takes false = false := by simp [RdSide.takes, state]
      rw [Phase, next]
      refine ⟨rfl, rfl, ?_, ?_, last⟩
      · simp only [clock, state]
        exact valid
      · simp only [beat, clock, takes, Bool.false_eq_true, if_false]
        exact onBus
    | true =>
      have quiet : (side.clock true tog ram).rdAxisTvalid = false := by simp [clock, state]
      have starts : Starts beats (delivered + 1) := Or.inr last
      have ended : framesBefore beats delivered + 1 = framesBefore beats (delivered + 1) := by
        rw [framesBefore_succ, last, Bool.toNat_true]
      cases avail : side.rdAvail with
      | false =>
        have next : (side.clock true tog ram).rdState = .idle := by
          show side.nextState true = _
          rw [nextState, state, avail]
          rfl
        rw [Phase, next]
        exact ⟨rfl, ended, starts, quiet⟩
      | true =>
        have next : (side.clock true tog ram).rdState = .init1 := by
          show side.nextState true = _
          rw [nextState, state, avail]
          rfl
        rw [Phase, next]
        exact ⟨rfl, ended, starts, quiet⟩

end Fetch

section Count

variable (few : known 5 + 2 ≤ begun + 2 ^ (w - 1))

omit frames stored

include few

theorem Reading.toNat_rdFrames : side.rdFrames.toNat = known 5 - begun := by
  have begun_le := reading.begun_le
  rw [reading.rdFrames, BitVec.toNat_ofNat, Nat.mod_eq_of_lt (by omega)]

theorem Reading.rdFrames_iff : side.rdFrames ≠ 0 ↔ begun < known 5 := by
  have value := reading.toNat_rdFrames few
  rw [Ne, ← BitVec.toNat_inj, value, BitVec.ofNat_eq_ofNat, BitVec.toNat_ofNat, Nat.zero_mod]
  omega

/-- The counter follows the frames known and begun. -/
theorem Reading.frames_next (more : known 4 + 2 ≤ begun + 2 ^ (w - 1)) :
    side.nextFrames =
      BitVec.ofNat (w - 1) (known 4 - (begun + (decide (side.rdState = .init1)).toNat)) := by
  have value := reading.toNat_rdFrames few
  have known_le : known 5 ≤ known 4 := reading.known_le 4
  have near : known 4 ≤ known 5 + 1 := reading.near 4
  have begun_le := reading.begun_le
  rw [nextFrames, reading.store]
  by_cases starts : side.rdState = .init1
  · have available := reading.starting starts
    rw [if_pos starts, if_pos starts, decide_eq_true starts, Bool.toNat_true,
      if_pos ((reading.rdFrames_iff few).mpr available), reading.rdFrames]
    by_cases stored : known 5 < known 4
    · rw [decide_eq_true stored, if_pos rfl]
      exact congrArg (BitVec.ofNat (w - 1)) (by omega)
    · rw [decide_eq_false stored, if_neg Bool.false_ne_true, sub_eq_iff_eq_add, ofNat_succ]
      exact congrArg (BitVec.ofNat (w - 1)) (by omega)
  · rw [if_neg starts, if_neg starts, decide_eq_false starts, Bool.toNat_false]
    by_cases stored : known 5 < known 4
    · have room : side.rdFrames ≠ BitVec.allOnes (w - 1) := fun full => by
        rw [full, BitVec.toNat_allOnes] at value
        omega
      rw [decide_eq_true stored, if_pos rfl, if_pos room, reading.rdFrames, ofNat_succ]
      exact congrArg (BitVec.ofNat (w - 1)) (by omega)
    · rw [decide_eq_false stored, if_neg Bool.false_ne_true, reading.rdFrames]
      exact congrArg (BitVec.ofNat (w - 1)) (by omega)

end Count

/-- One edge of the read clock. -/
theorem Reading.next (positive : 0 < w) (le : read ≤ written)
    (room : written + 5 ≤ read + 2 ^ w) {ram : BitVec w → RamWord}
    (kept : Holds beats ram read written) {level : Nat} (later : known 0 ≤ level)
    (near : level ≤ known 0 + 1) (tready : Bool) :
    (side.clock tready level.bodd ram).Reading beats
      (delivered + (side.rdAxisTvalid && tready).toNat) (read + (side.rdEnable tready).toNat) read
      (begun + (decide (side.rdState = .init1)).toNat) (shifted level known) := by
  have fetched (enabled : side.rdEnable tready = true) :
      ram side.rdAddr = (beats read).ramWord := by
    rw [reading.rdAddr]
    exact kept read le_rfl (reading.fetched_lt frames stored enabled)
  obtain ⟨bound, few⟩ := reading.few frames stored positive le room
  have begun_le := reading.begun_le
  have counted : known 5 ≤ known 4 := reading.known_le 4
  refine ⟨reading.phase_next frames fetched level.bodd, ?_, ?_, Nat.le_add_right _ _, ?_, rfl,
    reading.tog, reading.togD1, reading.togD2, reading.togD3,
    shifted_le later reading.known_le, fun i => ?_, ?_, ?_, ?_, fun avail other apart => ?_,
    fun starts => ?_⟩
  · simp only [clock]
    cases side.rdEnable tready with
    | false => exact reading.rdAddr
    | true => rw [if_pos rfl, reading.rdAddr, ofNat_succ, Bool.toNat_true]
  · show binToGray side.rdAddr = _
    rw [binToGray_eq, reading.rdAddr]
  · exact Nat.add_le_add_left (Bool.toNat_le _) read
  · cases i with
    | zero => exact near
    | succ i => exact reading.near i
  · show (side.rdStoreFrameSync ^^ side.rdStoreFrameTogD3) = decide (known 4 < known 3)
    have lower : known 4 ≤ known 3 := reading.known_le 3
    have upper : known 3 ≤ known 4 + 1 := reading.near 3
    rw [reading.sync, reading.togD3]
    rcases Nat.eq_or_lt_of_le lower with same | less
    · rw [same, Bool.xor_self, decide_eq_false (Nat.lt_irrefl _)]
    · have step : known 3 = known 4 + 1 := by omega
      rw [decide_eq_true less, step, Nat.bodd_succ]
      cases (known 4).bodd <;> rfl
  · show begun + _ ≤ known 4
    by_cases starts : side.rdState = .init1
    · have available := reading.starting starts
      rw [decide_eq_true starts, Bool.toNat_true]
      omega
    · rw [decide_eq_false starts, Bool.toNat_false]
      omega
  · exact reading.frames_next few (by omega)
  · have available : begun < known 5 :=
      (reading.rdFrames_iff few).mp (of_decide_eq_true avail)
    have now : side.rdState ≠ .init1 := fun starts => apart (by
      show side.nextState tready = _
      rw [nextState, starts])
    rw [decide_eq_false now, Bool.toNat_false]
    exact Nat.lt_of_lt_of_le available counted
  · have next : side.nextState tready = .init1 := starts
    obtain ⟨avail, other, apart⟩ := init1_step next
    rw [decide_eq_false other, Bool.toNat_false]
    exact Nat.lt_of_lt_of_le (reading.avail avail other apart) counted

end Step

end RdSide

end K71GbE.TenGigEth
