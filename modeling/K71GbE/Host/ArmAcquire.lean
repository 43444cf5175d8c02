/-
This file is about the loop of `fmc112_arm_acquire` that waits until the memory is
written.

Each poll reads two status registers, the trigger pointer and the busy flags, and
the loop goes by what the buffer holds behind the second of them. Command and
response share the buffer, their lengths are not looked at, and whether a `char` is
signed is up to the host.
-/

import K71GbE.Clocked.Machine
import K71GbE.Host.Socket

namespace K71GbE.Host

open Clocked

/-- What becomes of the queries for the status registers 8 and 9. -/
structure Poll where
  pointer : Query
  flags : Query
deriving DecidableEq, Repr

/-- The variables of the loop that waits. -/
structure Polling where
  buf : List (BitVec 8)
  status : BitVec 16
  finished : BitVec 16

/-- `(uint16_t)` of a `char`. -/
def toUint16 (signed : Bool) (c : BitVec 8) : BitVec 16 :=
  if signed then c.signExtend 16 else c.setWidth 16

/-- `((uint16_t)buf[2]<<8) | (uint16_t)buf[3]`, as a `uint16_t`. -/
def decodeStatus (signed : Bool) (buf : List (BitVec 8)) : BitVec 16 :=
  ((toUint16 signed (buf.getD 2 0)).setWidth 32 <<< 8 |||
    (toUint16 signed (buf.getD 3 0)).setWidth 32).setWidth 16

/-- The buffer behind a query for a status register. -/
def readStatus (host : Endian) (addr : BitVec 32) (query : Query) (buf : List (BitVec 8)) :
    List (BitVec 8) :=
  (queryResponse 4 query (overwrite buf 0 (sent host (cmdReadStatus host addr)))).2

/-- One round of the loop, if it goes on. -/
def Polling.step (host : Endian) (signed : Bool) (polling : Polling) (poll : Poll) : Polling :=
  if polling.finished = 0 then
    let buf := readStatus host 9 poll.flags (readStatus host 8 poll.pointer polling.buf)
    let status := decodeStatus signed buf
    ⟨buf, status, status &&& 0x2000⟩
  else polling

/-- The loop is entered. -/
def Polling.start (buf : List (BitVec 8)) (status : BitVec 16) : Polling := ⟨buf, status, 0⟩

/-! ### What a poll should tell -/

/-- The bytes of the flags that are received. -/
def Poll.reply (poll : Poll) : List (BitVec 8) := poll.flags.response 4

/-- The flags are received in full. -/
def Poll.Full (poll : Poll) : Prop := 4 ≤ poll.reply.length

/-- The register that the FPGA sent. -/
def Poll.register (poll : Poll) : BitVec 16 := poll.reply.getD 2 0 ++ poll.reply.getD 3 0

/-- `WR_WRAPPED` is received. -/
def Poll.Wrapped (poll : Poll) : Prop := poll.Full ∧ poll.register.getLsbD 13 = true

instance (poll : Poll) : Decidable poll.Full := inferInstanceAs (Decidable (_ ≤ _))

instance (poll : Poll) : Decidable poll.Wrapped := inferInstanceAs (Decidable (_ ∧ _))

/-- A full reply has no low byte that is taken for negative, unless the high byte is all ones, and a
reply of three bytes does not end in one with the flag. -/
def Poll.Legible (signed : Bool) (poll : Poll) : Prop :=
  (poll.Full → signed = true → (poll.reply.getD 3 0).msb = true → poll.reply.getD 2 0 = 0xff) ∧
    (poll.reply.length = 3 → (poll.reply.getD 2 0).getLsbD 5 = false)

/-! ### What a poll tells -/

/-- The byte that a `char` is extended by. -/
def signByte (signed : Bool) (c : BitVec 8) : BitVec 8 := if signed && c.msb then 0xff else 0

theorem toUint16_eq (signed : Bool) (c : BitVec 8) :
    toUint16 signed c = signByte signed c ++ c := by
  revert signed c
  decide +kernel

theorem shift_or (a b c d : BitVec 8) :
    ((a ++ b : BitVec 16).setWidth 32 <<< 8 ||| (c ++ d : BitVec 16).setWidth 32).setWidth 16 =
      (b ||| c) ++ d := by
  ext bit small
  rw [BitVec.getElem_append]
  simp only [BitVec.getElem_setWidth, BitVec.getLsbD_or, BitVec.getLsbD_shiftLeft,
    BitVec.getLsbD_setWidth, BitVec.getLsbD_append, BitVec.getElem_or]
  by_cases low : bit < 8
  · simp [low, show bit < 32 by omega]
  · simp [low, show bit < 32 by omega, show bit - 8 < 8 by omega, show bit - 8 < 32 by omega]

/-- A negative low byte covers the high byte. -/
theorem decodeStatus_eq_iff (signed : Bool) (buf : List (BitVec 8)) :
    decodeStatus signed buf = buf.getD 2 0 ++ buf.getD 3 0 ↔
      (signed = true → (buf.getD 3 0).msb = true → buf.getD 2 0 = 0xff) := by
  rw [decodeStatus, toUint16_eq, toUint16_eq, shift_or]
  generalize buf.getD 2 0 = high
  generalize buf.getD 3 0 = low
  by_cases negative : signed = true ∧ low.msb = true
  · have covered : high ||| signByte signed low = 0xff := by
      rw [signByte, negative.1, negative.2]
      exact BitVec.or_allOnes
    rw [covered]
    constructor
    · intro same _ _
      have upper := congrArg (BitVec.extractLsb' 8 8) same
      rw [BitVec.extractLsb'_append_eq_left, BitVec.extractLsb'_append_eq_left] at upper
      exact upper.symm
    · intro ones
      rw [ones negative.1 negative.2]
  · have kept : high ||| signByte signed low = high := by
      rw [signByte, if_neg (by rwa [Bool.and_eq_true])]
      exact BitVec.or_zero
    rw [kept]
    exact ⟨fun _ isSigned msb => absurd ⟨isSigned, msb⟩ negative, fun _ => rfl⟩

theorem and_flag (status : BitVec 16) : status &&& 0x2000 ≠ 0 ↔ status.getLsbD 13 = true := by
  have flag : (0x2000 : BitVec 16) = BitVec.twoPow 16 13 := by decide
  rw [flag, BitVec.and_twoPow]
  split_ifs with set
  · exact iff_of_true (by decide) set
  · exact iff_of_false (fun other => other rfl) set

/-- A byte of the buffer behind a query is one of the reply, if it is that long, or one of the
command. -/
theorem getD_readStatus (host : Endian) (addr : BitVec 32) (query : Query) (buf : List (BitVec 8))
    (i : Nat) :
    (readStatus host addr query buf).getD i 0 =
      if i < (query.response 4).length then (query.response 4).getD i 0
      else (overwrite buf 0 (sent host (cmdReadStatus host addr))).getD i 0 := by
  rw [readStatus, queryResponse_eq (by decide), getD_overwrite]

/-- A poll tells what it should exactly when its reply is legible. -/
theorem Polling.step_iff (host : Endian) (signed : Bool) {polling : Polling}
    (going : polling.finished = 0) (poll : Poll) :
    let after := polling.step host signed poll
    (poll.Full → after.status = poll.register) ∧ (after.finished ≠ 0 ↔ poll.Wrapped) ↔
      poll.Legible signed := by
  obtain ⟨buf, isBuf⟩ : ∃ buf, readStatus host 9 poll.flags
      (readStatus host 8 poll.pointer polling.buf) = buf := ⟨_, rfl⟩
  have byte : ∀ i, 2 ≤ i → i < 4 →
      buf.getD i 0 = if i < poll.reply.length then poll.reply.getD i 0 else 0 := by
    intro i after before
    have length : (sent host (cmdReadStatus host 9)).length = 4 := by
      cases host <;> rfl
    have command : (sent host (cmdReadStatus host 9)).getD i 0 = 0 := by
      cases host <;> (obtain rfl | rfl : i = 2 ∨ i = 3 := by omega) <;> rfl
    rw [← isBuf, getD_readStatus, getD_overwrite, length, if_pos before, command]
    rfl
  simp only [Polling.step, going, if_true, isBuf, and_flag]
  have high := byte 2 (by decide) (by decide)
  have low := byte 3 (by decide) (by decide)
  unfold Poll.Wrapped Poll.Legible Poll.Full Poll.register
  have decoded := decodeStatus_eq_iff signed buf
  have bit : ∀ x y : BitVec 8, (x ++ y : BitVec 16).getLsbD 13 = x.getLsbD 5 := by
    intro x y
    exact BitVec.getLsbD_append
  rcases Nat.lt_or_ge poll.reply.length 4 with short | full
  · rw [if_neg (by omega)] at low
    have positive : decodeStatus signed buf = buf.getD 2 0 ++ buf.getD 3 0 :=
      decoded.mpr fun _ negative => by rw [low] at negative; cases negative
    rw [positive, bit, high]
    by_cases three : poll.reply.length = 3
    · simp [three]
    · simp [three, show ¬2 < poll.reply.length by omega, Nat.not_le.mpr short]
  · rw [if_pos (by omega)] at high low
    rw [high, low] at decoded
    simp only [full, true_imp_iff, true_and, decoded, show poll.reply.length ≠ 3 by omega,
      false_imp_iff, and_true]
    constructor
    · exact And.left
    · exact fun legible => ⟨legible, by rw [decoded.mpr legible]⟩

/-! ### The loop -/

/-- As long as no wrapped reply has come the loop goes on, decodes a full reply as the register that
was sent, and leaves with the first reply that is wrapped. -/
def WaitsForWrapped (host : Endian) (signed : Bool) (start : Polling) (polls : List Poll) : Prop :=
  ∀ front poll, front ++ [poll] <+: polls → (∀ earlier ∈ front, ¬earlier.Wrapped) →
    let before := run (Polling.step host signed) start front
    let after := before.step host signed poll
    before.finished = 0 ∧ (poll.Full → after.status = poll.register) ∧
      (after.finished ≠ 0 ↔ poll.Wrapped)

/-- The loop waits for the flag exactly when all polls up to the first wrapped one are legible. -/
theorem waitsForWrapped_iff (host : Endian) (signed : Bool) (buf : List (BitVec 8))
    (status : BitVec 16) (polls : List Poll) :
    WaitsForWrapped host signed (.start buf status) polls ↔
      ∀ front poll, front ++ [poll] <+: polls → (∀ earlier ∈ front, ¬earlier.Wrapped) →
        poll.Legible signed := by
  constructor
  · intro waits front poll reached waiting
    obtain ⟨going, right⟩ := waits front poll reached waiting
    exact (Polling.step_iff host signed going poll).mp right
  · intro legible
    have going : ∀ front, front <+: polls → (∀ earlier ∈ front, ¬earlier.Wrapped) →
        (run (Polling.step host signed) (.start buf status) front).finished = 0 := by
      intro front reached waiting
      induction front using List.reverseRecOn with
      | nil => rfl
      | append_singleton front poll inductionHypothesis =>
        have earlier : ∀ earlier ∈ front, ¬earlier.Wrapped :=
          fun earlier member => waiting earlier (List.mem_append_left _ member)
        have before := inductionHypothesis ((List.prefix_append _ _).trans reached) earlier
        have right := (Polling.step_iff host signed before poll).mpr
          (legible front poll reached earlier)
        rw [run_concat]
        exact of_not_not fun left =>
          waiting poll (List.mem_append_right _ List.mem_cons_self) (right.2.mp left)
    intro front poll reached waiting
    have before := going front ((List.prefix_append _ _).trans reached) waiting
    exact ⟨before, (Polling.step_iff host signed before poll).mpr
      (legible front poll reached waiting)⟩

/-- Flags that are all clear, in front of a pointer whose second byte is `0x80`, are taken for flags
that are all set. -/
theorem negative_pointer_exits :
    ¬WaitsForWrapped .little true (.start (List.replicate bufsiz 0) 0)
      [⟨⟨some 4, [.read [0x80, 0x08, 0, 0]]⟩, ⟨some 4, [.read [0x80, 0x09, 0x00, 0x80]]⟩⟩] := by
  intro waits
  obtain ⟨_, decoded, _⟩ := waits [] _ (List.prefix_refl _) (by simp)
  exact absurd (decoded (by decide)) (by decide)

end K71GbE.Host
