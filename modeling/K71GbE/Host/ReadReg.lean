/-
This file is about `fmc112_read_reg`, which reads a register of the SIP bus in one query
or, if it waits for the answer, in two.

A query returns an `int`, which is negative when it fails. The function keeps it as
a `size_t`, where it is more than any length, and the buffer then holds the command.
-/

import K71GbE.Host.Sip
import K71GbE.Host.Socket

namespace K71GbE.Host

/-- `(size_t)` of an `int`. -/
def toSizeT (n : Int) : Nat := (BitVec.ofInt 64 n).toNat

section Reading

variable (host : Endian) (buf : List (BitVec 8)) (addr : BitVec 32) (waitms : Int)
  (first second : Query)

/-- The buffer and the length that `fmc112_read_reg` decodes. -/
def readRegReply : Nat × List (BitVec 8) :=
  let reply := queryResponse 16 first (overwrite buf 0 (sent host (sipReadReg host addr)))
  let reply :=
    if 0 < waitms then
      queryResponse 16 second (overwrite reply.2 0 (sent host (sipRecvCommand host)))
    else reply
  (toSizeT reply.1, reply.2)

/-- `fmc112_read_reg`. -/
def readReg : BitVec 64 :=
  let reply := readRegReply host buf addr waitms first second
  sipRegRet2num reply.2 reply.1

/-- The query whose reply is decoded. -/
def lastQuery : Query := if 0 < waitms then second else first

/-- The value is that of the last reply, or 0 if this is short, and what is decoded are bytes of
that reply. -/
def ReportsReply : Prop :=
  let response := (lastQuery waitms first second).response 16
  readReg host buf addr waitms first second = sipRegRet2num response response.length ∧
    (16 ≤ (readRegReply host buf addr waitms first second).1 → 16 ≤ response.length)

/-- What is decoded is what the last query leaves. -/
theorem readRegReply_eq :
    ∃ before, readRegReply host buf addr waitms first second =
      (toSizeT (queryResponse 16 (lastQuery waitms first second) before).1,
        (queryResponse 16 (lastQuery waitms first second) before).2) := by
  unfold readRegReply lastQuery
  split_ifs <;> exact ⟨_, rfl⟩

theorem toSizeT_natCast {n : Nat} (small : n ≤ bufsiz) : toSizeT n = n := by
  have bound : bufsiz = 8192 := rfl
  rw [toSizeT, BitVec.ofInt_natCast, BitVec.toNat_ofNat, Nat.mod_eq_of_lt (by omega)]

/-- Only the first sixteen bytes are decoded. -/
theorem sipRegRet2num_congr {buf response : List (BitVec 8)} {n : Nat}
    (same : 16 ≤ n → ∀ i < 16, buf.getD i 0 = response.getD i 0) :
    sipRegRet2num buf n = sipRegRet2num response n := by
  unfold sipRegRet2num
  split_ifs with short
  · rfl
  · have byte := same (Nat.le_of_not_lt short)
    simp only [byte 2 (by decide), byte 3 (by decide), byte 6 (by decide), byte 7 (by decide),
      byte 10 (by decide), byte 11 (by decide), byte 14 (by decide), byte 15 (by decide)]

/-- The function reports the last reply exactly when the last query does not fail. -/
theorem reportsReply_iff :
    ReportsReply host buf addr waitms first second ↔ ¬(lastQuery waitms first second).Fails 16 := by
  obtain ⟨before, reply⟩ := readRegReply_eq host buf addr waitms first second
  simp only [ReportsReply, readReg, reply]
  generalize lastQuery waitms first second = last
  rw [queryResponse_eq (by decide)]
  by_cases fails : last.Fails 16
  · have short := Query.length_response_of_fails (by decide) fails
    have error : toSizeT (-1) = 2 ^ 64 - 1 := by decide
    simp only [fails, if_true, error, not_true, iff_false]
    exact fun reports => absurd (reports.2 (by decide)) (Nat.not_le.mpr short)
  · simp only [fails, if_false, not_false_eq_true, iff_true,
      toSizeT_natCast (last.length_response_le 16)]
    refine ⟨sipRegRet2num_congr fun full i small => ?_, id⟩
    rw [getD_overwrite, if_pos (small.trans_le full)]

end Reading

/-- A command that is not sent is decoded as the answer. -/
theorem unsent_command_reported :
    ¬ReportsReply .little (List.replicate bufsiz 0) 0x10 0 ⟨none, []⟩ ⟨none, []⟩ := by
  intro reports
  exact absurd reports.1 (by decide)

end K71GbE.Host
