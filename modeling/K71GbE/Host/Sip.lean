/-
This file models `sip.c`, the register transport of the host: a command of 64 bits
is written to four configuration registers and announced by a pulse, and the
answer is read from four status registers.

The buffers are those of the encoders, one behind another. Allocating them and
the message printed for a short answer are left out.
-/

import K71GbE.Host.Execution

namespace K71GbE.Host

open Clocked Control

/-- `((cmd)>>(i*16)) & 0x0000ffff`. -/
def sipSlice (cmd : BitVec 64) (i : Nat) : BitVec 32 :=
  ((cmd >>> (i * 16)) &&& 0x0000ffff).setWidth 32

section Encoders

variable (host : Endian)

/-- The loop that writes the command to the registers. -/
def sipWriteRegisters (cmd : BitVec 64) : List (BitVec 32) :=
  (List.range 4).flatMap fun i => cmdWriteRegister host (4 + BitVec.ofNat 32 i) (sipSlice cmd i)

/-- The loop that reads the status registers back. -/
def sipReadStatus : List (BitVec 32) :=
  (List.range 4).flatMap fun i => cmdReadStatus host (4 + BitVec.ofNat 32 i)

/-- `sip_send_recv_command`: the registers are written again to allow time for the return values. -/
def sipSendRecvCommand (cmd : BitVec 64) : List (BitVec 32) :=
  sipWriteRegisters host cmd ++ cmdSendPulse host 0x00000002 ++ sipWriteRegisters host cmd ++
    sipReadStatus host

/-- `sip_send_command`. -/
def sipSendCommand (cmd : BitVec 64) : List (BitVec 32) :=
  sipWriteRegisters host cmd ++ cmdSendPulse host 0x00000002

/-- `sip_recv_command`. -/
def sipRecvCommand : List (BitVec 32) := sipReadStatus host

/-- `sip_reg_ret2num` for the first `n` bytes of a buffer. -/
def sipRegRet2num (buf : List (BitVec 8)) (n : Nat) : BitVec 64 :=
  let p (i : Nat) : BitVec 64 := (buf.getD i 0).setWidth 64
  if n < 16 then 0
  else
    (p 14 <<< (8 * 7) ||| p 15 <<< (8 * 6)) ||| (p 10 <<< (8 * 5) ||| p 11 <<< (8 * 4)) |||
      (p 6 <<< (8 * 3) ||| p 7 <<< (8 * 2)) ||| (p 2 <<< (8 * 1) ||| p 3 <<< (8 * 0))

/-- `CMD_OPCODE_WRITE` and `CMD_OPCODE_READ`. -/
def cmdOpcodeWrite : BitVec 64 := 1

def cmdOpcodeRead : BitVec 64 := 2

/-- `sip_write_reg`. -/
def sipWriteReg (addr data : BitVec 32) : List (BitVec 32) :=
  sipSendCommand host
    (cmdOpcodeWrite <<< 60 ||| addr.setWidth 64 <<< 32 ||| data.setWidth 64)

/-- `sip_read_reg`. -/
def sipReadReg (addr : BitVec 32) : List (BitVec 32) :=
  sipSendRecvCommand host (cmdOpcodeRead <<< 60 ||| addr.setWidth 64 <<< 32)

end Encoders

/-! ### The buffers as calls -/

/-- The calls that write a command to its registers. -/
def sipWrites (cmd : BitVec 64) : List Call :=
  [.writeRegister 4 (sipSlice cmd 0), .writeRegister 5 (sipSlice cmd 1),
    .writeRegister 6 (sipSlice cmd 2), .writeRegister 7 (sipSlice cmd 3)]

/-- The calls that announce a command. -/
def sipSends (cmd : BitVec 64) : List Call := sipWrites cmd ++ [.sendPulse 2]

/-- The calls that read the answer. -/
def sipReads : List Call := [.readStatus 4, .readStatus 5, .readStatus 6, .readStatus 7]

theorem sipWriteRegisters_eq (host : Endian) (cmd : BitVec 64) :
    sipWriteRegisters host cmd = (sipWrites cmd).flatMap (Call.buffer host) := rfl

theorem sipReadStatus_eq (host : Endian) :
    sipReadStatus host = sipReads.flatMap (Call.buffer host) := rfl

theorem sipSendCommand_eq (host : Endian) (cmd : BitVec 64) :
    sipSendCommand host cmd = (sipSends cmd).flatMap (Call.buffer host) := by
  rw [sipSendCommand, sipWriteRegisters_eq, sipSends, List.flatMap_append, List.flatMap_singleton,
    Call.buffer]

theorem sipSendRecvCommand_eq (host : Endian) (cmd : BitVec 64) :
    sipSendRecvCommand host cmd =
      (sipSends cmd ++ sipWrites cmd ++ sipReads).flatMap (Call.buffer host) := by
  rw [sipSendRecvCommand, ← sipSendCommand, sipSendCommand_eq, sipWriteRegisters_eq,
    sipReadStatus_eq, List.flatMap_append, List.flatMap_append]

/-- The words of a buffer that is filled by calls. -/
theorem fifo8to32_buffer (host : Endian) (calls : List Call) :
    fifo8to32 (sent host (calls.flatMap (Call.buffer host))) = calls.flatMap Call.words := by
  have bytes : sent host (calls.flatMap (Call.buffer host)) = callBytes host calls :=
    List.flatMap_assoc
  rw [bytes, ← callWords, callWords_eq]

/-! ### The command in its registers -/

theorem sipSlice_setWidth (cmd : BitVec 64) (i : Nat) :
    (sipSlice cmd i).setWidth 16 = part 16 cmd i := by
  refine BitVec.eq_of_getLsbD_eq fun bit small => ?_
  have mask : (0x0000ffff : BitVec 64) = (BitVec.allOnes 16).setWidth 64 := rfl
  rw [sipSlice, mask]
  simp only [BitVec.getLsbD_setWidth, BitVec.getLsbD_and, BitVec.getLsbD_ushiftRight,
    BitVec.getLsbD_allOnes, getLsbD_part, small, decide_true, show bit < 32 by omega,
    show bit < 64 by omega, Bool.true_and, Bool.and_true]

/-- The calls leave the command in the registers 4 to 7. -/
theorem config_sipWrites (device : Device) (cmd : BitVec 64) {j : Nat} (inside : j < 4) :
    (device.run (sipWrites cmd)).config ⟨4 + j, by omega⟩ = part 16 cmd j := by
  rw [← sipSlice_setWidth]
  match j, inside with
  | 0, _ | 1, _ | 2, _ | 3, _ => rfl

/-- The 64 bits of a register row from bit 64 on, by their four parts. -/
theorem extract_of_parts {w : Nat} {register : BitVec w} {value : BitVec 64}
    (parts : ∀ j < 4, part 16 register (4 + j) = part 16 value j) :
    register.extractLsb' 64 64 = value := by
  refine eq_of_lanes (k := 16) (n := 4) (by decide) (List.map_congr_left fun j member => ?_)
  have inside := List.mem_range.mp member
  rw [← parts j inside]
  exact part_part (m := 4) (k := 16) register 1 inside

/-! ### The answer as a number -/

/-- The four bytes of an answer with a register. -/
theorem msbFirst_register (value : BitVec 16) :
    msbFirst 8 4 (0#16 ++ value) = [0, 0, part 8 value 1, part 8 value 0] := by
  have low {i : Nat} (inside : (i + 1) * 8 ≤ 16) : part 8 (0#16 ++ value) i = part 8 value i :=
    BitVec.extractLsb'_append_eq_of_add_le (by omega)
  have high {i : Nat} (outside : 16 ≤ i * 8) : part 8 (0#16 ++ value) i = 0 := by
    rw [part, BitVec.extractLsb'_append_eq_of_le outside]
    exact BitVec.extractLsb'_zero
  exact congrArg₂ List.cons (high (by decide)) (congrArg₂ List.cons (high (by decide))
    (congrArg₂ List.cons (low (by decide)) (congrArg₂ List.cons (low (by decide)) rfl)))

/-- The four answers of the status registers give the value that they hold. -/
theorem sipRegRet2num_parts (status : BitVec 64) :
    sipRegRet2num (fifo32to8 ((lanes 16 4 status).map (0#16 ++ ·))) 16 = status := by
  have bytes : fifo32to8 ((lanes 16 4 status).map (0#16 ++ ·)) =
      (lanes 16 4 status).flatMap fun value => [0, 0, part 8 value 1, part 8 value 0] := by
    rw [fifo32to8, List.flatMap_map]
    exact List.flatMap_congr fun value _ => msbFirst_register value
  rw [bytes]
  refine eq_of_lanes (k := 8) (n := 8) (by decide) (List.map_congr_left fun j member => ?_)
  have inside := List.mem_range.mp member
  have byte (i : Nat) {b : Nat} (low : b < 2) :
      part 8 (part 16 status i) b = part 8 status (i * 2 + b) := part_part (m := 2) status i low
  have placed (lane : BitVec 8) (i : Nat) :
      part 8 (lane.setWidth 64 <<< (8 * i)) j = if j = i then lane else 0#8 :=
    part_shiftLeft lane i (by omega)
  unfold sipRegRet2num
  rw [if_neg (by decide)]
  simp only [part_or, placed]
  have parity : (j = 0 ∨ j = 2 ∨ j = 4 ∨ j = 6) ∨ j = 1 ∨ j = 3 ∨ j = 5 ∨ j = 7 := by omega
  rcases parity with (rfl | rfl | rfl | rfl) | rfl | rfl | rfl | rfl
  all_goals simp only [Nat.reduceEqDiff, if_true, if_false, BitVec.or_zero, BitVec.zero_or]
  -- The low bytes of the answers are at the even places, the high ones at the odd places.
  iterate 4 exact byte _ (b := 0) (by decide)
  iterate 4 exact byte _ (b := 1) (by decide)

/-! ### The pulse over time -/

section Time

open System

variable {commands : List (BitVec 32)} (data : Nat → BitVec 32) {memory : BitVec 32 → BitVec 32}
  {ticks : Nat → Tick} {n : Nat}
  (serves : Serves ticks commands.length (Interpreter.interpret memory commands).moved)
  (nonzero : Along Interpreter.step (fun state word => ¬state.ReadsNothing word)
    (Interpreter.start memory) commands)

include serves nonzero

theorem pulsing_before (n : Nat) : (before commands data memory ticks n).control.Pulsing :=
  pulsing_run (regular_before data serves nonzero n)

theorem popped_mono : Monotone fun n => (before commands data memory ticks n).cmdFifo.popped :=
  monotone_nat_of_le_succ fun n => by
    have fetching := (standing_before data serves nonzero n).coherent.toFetching
    rw [before_succ, fetching.clock_popped]
    split_ifs
    · exact Nat.le_succ _
    · exact le_rfl

/-- A pulse that stands runs down, and no command is interpreted meanwhile. -/
theorem pulse_run {j : Nat}
    (standing : (before commands data memory ticks n).control.sPulseReg ≠ 0)
    (inside : j ≤ (before commands data memory ticks n).control.left) :
    (before commands data memory ticks (n + j)).control.left =
        (before commands data memory ticks n).control.left - j ∧
      (j < (before commands data memory ticks n).control.left →
        (before commands data memory ticks (n + j)).control.sPulseReg =
          (before commands data memory ticks n).control.sPulseReg) ∧
      (before commands data memory ticks (n + j)).cmdFifo.popped =
        (before commands data memory ticks n).cmdFifo.popped := by
  induction j with
  | zero => exact ⟨rfl, fun _ => rfl, rfl⟩
  | succ j inductionHypothesis =>
    obtain ⟨left, level, popped⟩ := inductionHypothesis (Nat.le_of_succ_le inside)
    have level := level inside
    obtain ⟨leftNext, levelNext, poppedNext⟩ :=
      (standing_before data serves nonzero (n + j)).coherent.toFetching.pulse_hold
        (pulsing_before data serves nonzero (n + j)) (.ofList commands data)
        (ticks (n + j)) (level ▸ standing)
    rw [← before_succ] at leftNext levelNext poppedNext
    refine ⟨?_, fun more => ?_, poppedNext.trans popped⟩
    · rw [Nat.add_succ, leftNext, left, Nat.sub_sub]
    · rw [Nat.add_succ, levelNext (by omega), level]

/-- A pulse write is three clocks of its mask, and nothing before and after them. -/
theorem pulse_of_interpret {mask : BitVec 16} (anyBit : mask ≠ 0)
    (state : (before commands data memory ticks n).control.cmdState = .interpretCmd)
    (word : commands.getD (before commands data memory ticks n).cmdFifo.popped 0 =
      0x000b#16 ++ mask) :
    (before commands data memory ticks n).control.sPulseReg = 0 ∧
      (∀ m, n < m → m ≤ n + 3 → (before commands data memory ticks m).control.sPulseReg = mask) ∧
      (before commands data memory ticks (n + 4)).control.sPulseReg = 0 ∧
      ∀ m, n < m → m ≤ n + 4 → (before commands data memory ticks m).cmdFifo.popped =
        (before commands data memory ticks n).cmdFifo.popped + 1 := by
  have pulsing := pulsing_before data serves nonzero n
  have fetching := (standing_before data serves nonzero n).coherent.toFetching
  have write := fetching.pulseWrite_eq (.ofList commands data) (ticks n) state
  obtain ⟨_, _, level, left⟩ := pulsed pulsing (.ofList commands data) (ticks n)
  have asked : (Traffic.ofList commands data).commands
      (before commands data memory ticks n).cmdFifo.popped = 0x000b#16 ++ mask := word
  have pulse : target (addressI (0x000b#16 ++ mask : BitVec 32)) = .pulseReg := by
    rw [addressI_word]
    rfl
  rw [asked, if_pos ⟨readNotWrite_word _ _, pulse⟩, dataOf_word] at write
  rw [write, ← before_succ] at level left
  have level : (before commands data memory ticks (n + 1)).control.sPulseReg = mask := level
  have left : (before commands data memory ticks (n + 1)).control.left = 3 :=
    left.trans (if_neg anyBit)
  have popped := fetching.clock_popped (.ofList commands data) (ticks n)
  rw [← before_succ, if_pos state] at popped
  have hold {j : Nat} (inside : j ≤ 3) :=
    pulse_run data serves nonzero (n := n + 1) (level.symm ▸ anyBit) (left.symm ▸ inside)
  refine ⟨pulsing.clear (by simp [state]) (by simp [state]), fun m after upTo => ?_, ?_,
    fun m after upTo => ?_⟩
  · obtain ⟨j, rfl⟩ := Nat.exists_eq_add_of_le (Nat.succ_le_of_lt after)
    exact ((hold (by omega)).2.1 (by omega)).trans level
  · have ended := (hold (le_refl 3)).1
    rw [left] at ended
    exact ControlInterface.left_eq_zero.mp ended
  · obtain ⟨j, rfl⟩ := Nat.exists_eq_add_of_le (Nat.succ_le_of_lt after)
    exact (hold (by omega)).2.2.trans popped

/-- Words that are no pulse writes keep the pulse register clear. -/
theorem quiet_of_words {first last : Nat}
    (silent : ∀ k, first ≤ k → k < last → kind (commands.getD k 0) ≠ (false, .pulseReg)) (n : Nat)
    (after : first < (before commands data memory ticks n).cmdFifo.popped)
    (upTo : (before commands data memory ticks n).cmdFifo.popped ≤ last) :
    (before commands data memory ticks n).control.sPulseReg = 0 := by
  induction n with
  | zero => cases after
  | succ n inductionHypothesis =>
    have pulsing := pulsing_before data serves nonzero n
    have fetching := (standing_before data serves nonzero n).coherent.toFetching
    have popped := fetching.clock_popped (.ofList commands data) (ticks n)
    have level := (pulsed pulsing (.ofList commands data) (ticks n)).level
    rw [← before_succ] at popped level
    rw [popped] at after upTo
    by_cases state : (before commands data memory ticks n).control.cmdState = .interpretCmd
    · rw [if_pos state] at after upTo
      have clear := pulsing.clear (by simp [state]) (by simp [state])
      have write := fetching.pulseWrite_eq (.ofList commands data) (ticks n) state
      rw [if_neg fun pulse => silent _ (Nat.le_of_lt_succ after) upTo (Prod.ext pulse.1 pulse.2)]
        at write
      rw [level, write, clear]
      exact ite_self _
    · rw [if_neg state] at after upTo
      rw [level, pulseWrite_of_other _ _ state, inductionHypothesis after upTo]
      exact ite_self _

/-- The configuration registers once the words of some calls are executed. -/
theorem config_before {earlier later : List (BitVec 32)} {calls : List Call}
    (whole : commands = earlier ++ calls.flatMap Call.words ++ later)
    (popped : (before commands data memory ticks n).cmdFifo.popped =
      (earlier ++ calls.flatMap Call.words).length) (i : Fin 32) :
    part 16 (before commands data memory ticks n).control.sConfigReg i =
      ((deviceOf (Interpreter.interpret memory earlier)).run calls).config i := by
  subst whole
  have meaning := (standing_before data serves nonzero n).meaning
  rw [popped, List.take_left, Interpreter.interpret, run_append] at meaning
  rw [← run_calls]
  exact congrFun (congrArg Interpreter.config meaning) i

end Time

section Statement

variable (commands : List (BitVec 32)) (data : Nat → BitVec 32) (memory : BitVec 32 → BitVec 32)
  (ticks : Nat → Tick)

/-- Words number `first` on announce a command by a pulse after edge `rise`: all 64 bits are in
their registers before, and stay there until after the pulse. -/
structure Announced (first : Nat) (cmd : BitVec 64) (rise : Nat) : Prop where
  words : (System.before commands data memory ticks rise).cmdFifo.popped = first + 4
  quiet : ∀ n ≤ rise, first < (System.before commands data memory ticks n).cmdFifo.popped →
    (System.before commands data memory ticks n).control.sPulseReg = 0
  pulse : ∀ n, rise < n → n ≤ rise + 3 →
    (System.before commands data memory ticks n).control.sPulseReg = 0x0002
  ended : (System.before commands data memory ticks (rise + 4)).control.sPulseReg = 0
  config : ∀ n, rise ≤ n → n ≤ rise + 4 →
    (System.before commands data memory ticks n).control.sConfigReg.extractLsb' 64 64 = cmd

/-- The status registers 4 to 7 hold a value while words number `first` to `first + 3` are
interpreted. -/
def Held (first : Nat) (status : BitVec 64) : Prop :=
  ∀ n, first ≤ (System.before commands data memory ticks n).cmdFifo.popped →
    (System.before commands data memory ticks n).cmdFifo.popped < first + 4 →
    (ticks n).statusReg.extractLsb' 64 64 = status

/-- At last, the answers to the first `first` words are followed by four words that the host takes
for the value. -/
def Returned (first : Nat) (status : BitVec 64) : Prop :=
  ∃ n, ∀ m, n ≤ m → ∃ (four : List (BitVec 32)) (later : List (BitVec 36)),
    System.output commands data memory ticks m =
      Interpreter.answers data memory ((System.given commands data memory ticks m).take first) ++
        four.map outputWord ++ later ∧
    four.length = 4 ∧ sipRegRet2num (fifo32to8 four) 16 = status

end Statement

section Laws

open System

variable {earlier later : List (BitVec 32)} (data : Nat → BitVec 32)
  {memory : BitVec 32 → BitVec 32} {ticks : Nat → Tick}

theorem length_sipWrites (cmd : BitVec 64) : ((sipWrites cmd).flatMap Call.words).length = 4 := rfl

/-- The words that set the registers start no pulse. -/
theorem kind_sipWrites {cmd : BitVec 64} {word : BitVec 32}
    (member : word ∈ (sipWrites cmd).flatMap Call.words) : kind word ≠ (false, .pulseReg) := by
  intro pulse
  obtain ⟨call, found, member⟩ := List.mem_flatMap.mp member
  have kinds := pulse ▸ kind_mem_kinds member
  simp only [sipWrites, List.mem_cons, List.not_mem_nil, or_false] at found
  rcases found with rfl | rfl | rfl | rfl <;> simp [Call.kinds] at kinds

/-- The words of `sip_send_command` announce the command. -/
theorem exists_announced (cmd : BitVec 64) {commands : List (BitVec 32)}
    (whole : commands = earlier ++ (sipSends cmd).flatMap Call.words ++ later)
    (serves : Serves ticks commands.length (Interpreter.interpret memory commands).moved)
    (nonzero : Along Interpreter.step (fun state word => ¬state.ReadsNothing word)
      (Interpreter.start memory) commands) :
    ∃ rise, Announced commands data memory ticks earlier.length cmd rise := by
  have sends : (sipSends cmd).flatMap Call.words =
      (sipWrites cmd).flatMap Call.words ++ [0x000b#16 ++ 0x0002#16] :=
    List.flatMap_append
  have writes : commands = earlier ++ (sipWrites cmd).flatMap Call.words ++
      ([0x000b#16 ++ 0x0002#16] ++ later) := by
    rw [whole, sends, List.append_assoc, List.append_assoc, List.append_assoc]
  have length : (earlier ++ (sipWrites cmd).flatMap Call.words).length = earlier.length + 4 :=
    List.length_append
  have inside : earlier.length + 4 < commands.length := by
    rw [writes, List.length_append, length, List.length_append, List.length_singleton]
    omega
  have word : commands.getD (earlier.length + 4) 0 = 0x000b#16 ++ 0x0002#16 := by
    rw [writes, List.getD_eq_getElem?_getD, ← length, List.getElem?_append_right le_rfl,
      Nat.sub_self]
    rfl
  have silent : ∀ k, earlier.length ≤ k → k < earlier.length + 4 →
      kind (commands.getD k 0) ≠ (false, .pulseReg) := by
    intro k start below
    obtain ⟨j, rfl⟩ := Nat.exists_eq_add_of_le start
    have member : commands.getD (earlier.length + j) 0 ∈ (sipWrites cmd).flatMap Call.words := by
      rw [writes, List.append_assoc, List.getD_eq_getElem?_getD,
        List.getElem?_append_right (Nat.le_add_right _ _), Nat.add_sub_cancel_left,
        List.getElem?_append_left (by rw [length_sipWrites]; omega),
        List.getElem?_eq_getElem (by rw [length_sipWrites]; omega)]
      exact List.getElem_mem _
    exact kind_sipWrites member
  obtain ⟨rise, state, popped⟩ := exists_interpreting data serves nonzero inside
  obtain ⟨_, pulse, ended, after⟩ := pulse_of_interpret data serves nonzero (by decide) state
    (popped.symm ▸ word)
  refine ⟨rise, popped, fun n before early => ?_, pulse, ended, fun n start stop => ?_⟩
  · exact quiet_of_words data serves nonzero silent n early
      (popped ▸ popped_mono data serves nonzero before)
  · refine extract_of_parts fun j small => ?_
    rcases Nat.eq_or_lt_of_le start with rfl | past
    · rw [← config_sipWrites (deviceOf (Interpreter.interpret memory earlier)) cmd small]
      exact config_before data serves nonzero writes (popped.trans length.symm) ⟨4 + j, by omega⟩
    · have sent : (earlier ++ (sipSends cmd).flatMap Call.words).length = earlier.length + 5 :=
        List.length_append
      rw [← config_sipWrites (deviceOf (Interpreter.interpret memory earlier)) cmd small]
      refine (config_before data serves nonzero whole ?_ ⟨4 + j, by omega⟩).trans ?_
      · rw [after n past stop, popped, sent]
      · rw [sipSends, Device.run_append]
        rfl

/-- The four status reads return the value held at the registers. -/
theorem returned {commands : List (BitVec 32)} (status : BitVec 64)
    (whole : commands = earlier ++ sipReads.flatMap Call.words ++ later)
    (serves : Serves ticks commands.length (Interpreter.interpret memory commands).moved)
    (nonzero : Along Interpreter.step (fun state word => ¬state.ReadsNothing word)
      (Interpreter.start memory) commands)
    (held : Held commands data memory ticks earlier.length status) :
    Returned commands data memory ticks earlier.length status := by
  obtain ⟨n, consumed⟩ := exists_consumed data serves nonzero
  refine ⟨n, fun m after => ?_⟩
  have interpreted := interpreted_of_consumed data serves nonzero (consumed m after)
  have words := interpreted.words.trans whole
  have answers := interpreted.answers
  have sampled {k : Nat} {found : Given} :=
    @given_status commands data memory ticks serves nonzero m k found
  generalize given commands data memory ticks m = givens at words answers sampled ⊢
  obtain ⟨both, last, rfl, bothWords, -⟩ := List.map_eq_append_iff.mp words
  obtain ⟨front, reads, rfl, frontWords, readWords⟩ := List.map_eq_append_iff.mp bothWords
  have length : front.length = earlier.length := by rw [← frontWords, List.length_map]
  have four : reads.length = 4 := by
    rw [← List.length_map (f := Given.word), readWords]
    rfl
  have value {j : Nat} (inside : j < 4) :
      part 16 (statusOf (reads.drop j)) (4 + j) = part 16 status j := by
    have bound : j < reads.length := four.symm ▸ inside
    have found : (front ++ reads ++ last)[earlier.length + j]? = some reads[j] := by
      rw [List.append_assoc, ← length, List.getElem?_append_right (Nat.le_add_right _ _),
        Nat.add_sub_cancel_left, List.getElem?_append_left bound, List.getElem?_eq_getElem bound]
    obtain ⟨k, popped, sample⟩ := sampled found
    have hold : part (4 * 16) (ticks k).statusReg 1 = status :=
      held k (popped ▸ Nat.le_add_right _ _) (popped ▸ Nat.add_lt_add_left inside _)
    have seen : statusOf (reads.drop j) = (ticks k).statusReg := by
      rw [← sample, statusOf, List.head?_drop, List.getElem?_eq_getElem bound]
      rfl
    rw [seen, ← hold]
    exact (part_part (ticks k).statusReg 1 inside).symm
  have read : log (fun state given => Interpreter.step state (Given.word given))
      (Interpreter.reply data) (Interpreter.interpret memory earlier) reads =
        ((lanes 16 4 status).map (0#16 ++ ·)).map outputWord := by
    have parts : lanes 16 4 status = [part 16 (statusOf (reads.drop 0)) 4,
        part 16 (statusOf (reads.drop 1)) 5, part 16 (statusOf (reads.drop 2)) 6,
        part 16 (statusOf (reads.drop 3)) 7] := by
      rw [value (j := 0) (by decide), value (j := 1) (by decide), value (j := 2) (by decide),
        value (j := 3) (by decide)]
      rfl
    rw [log_reply_calls data _ sipReads readWords, parts]
    simp only [sipReads, statuses, List.drop_drop]
    rfl
  refine ⟨_, log (fun state given => Interpreter.step state (Given.word given))
    (Interpreter.reply data) (run Interpreter.step (Interpreter.interpret memory earlier)
      (reads.map Given.word)) last, ?_, ?_, sipRegRet2num_parts status⟩
  · rw [answers, List.append_assoc, ← length, List.take_left, Interpreter.answers, log_append,
      log_append, run_word, frontWords, ← Interpreter.interpret, read, run_word, List.append_assoc]
    rfl
  · rw [List.length_map, length_lanes]

end Laws

/-! ### The fields of a command -/

theorem sip_fields (opcode : BitVec 4) {addr : BitVec 32} (data : BitVec 32)
    (small : addr.toNat < 2 ^ 28) :
    opcode.setWidth 64 <<< 60 ||| addr.setWidth 64 <<< 32 ||| data.setWidth 64 =
      opcode ++ addr.setWidth 28 ++ data := by
  refine BitVec.eq_of_getLsbD_eq fun bit inside => ?_
  have high {i : Nat} (above : 28 ≤ i) : addr.getLsbD i = false :=
    Nat.testBit_lt_two_pow (lt_of_lt_of_le small (Nat.pow_le_pow_right (by decide) above))
  simp only [BitVec.getLsbD_or, BitVec.getLsbD_shiftLeft, BitVec.getLsbD_setWidth,
    BitVec.getLsbD_append]
  split_ifs with low middle
  · simp [low, show bit < 60 by omega, show bit < 64 by omega]
  · rw [BitVec.getLsbD_of_ge data bit (Nat.le_of_not_lt low)]
    simp [low, middle, inside, show bit < 60 by omega, show bit - 32 < 64 by omega]
  · rw [BitVec.getLsbD_of_ge data bit (Nat.le_of_not_lt low), high (Nat.le_of_not_lt middle)]
    simp [inside, show ¬bit < 60 by omega, show bit - 60 < 64 by omega, Nat.sub_sub]

/-- The register transport, whatever was executed before and is executed later: every 64-bit command
is in its registers before its pulse and until after it, what the status registers hold while they
are read is what the host takes the answer for, and the opcode, the address and the data of a
register access are fields of their own. -/
theorem sip_round_trip (host : Endian) (cmd status : BitVec 64) (earlier later : List (BitVec 32))
    (data : Nat → BitVec 32) (memory : BitVec 32 → BitVec 32) (ticks : Nat → Tick) :
    (∀ buf, buf = sipSendCommand host cmd ∨ buf = sipSendRecvCommand host cmd →
      ∀ commands, commands = earlier ++ fifo8to32 (sent host buf) ++ later →
      Serves ticks commands.length (Interpreter.interpret memory commands).moved →
      Along Interpreter.step (fun state word => ¬state.ReadsNothing word)
        (Interpreter.start memory) commands →
      ∃ rise, Announced commands data memory ticks earlier.length cmd rise) ∧
    (∀ buf first, buf = sipSendRecvCommand host cmd ∧ first = earlier.length + 9 ∨
        buf = sipRecvCommand host ∧ first = earlier.length →
      ∀ commands, commands = earlier ++ fifo8to32 (sent host buf) ++ later →
      Serves ticks commands.length (Interpreter.interpret memory commands).moved →
      Along Interpreter.step (fun state word => ¬state.ReadsNothing word)
        (Interpreter.start memory) commands →
      Held commands data memory ticks first status →
      Returned commands data memory ticks first status) ∧
    ∀ addr val : BitVec 32, addr.toNat < 2 ^ 28 →
      sipWriteReg host addr val = sipSendCommand host (1#4 ++ addr.setWidth 28 ++ val) ∧
        sipReadReg host addr = sipSendRecvCommand host (2#4 ++ addr.setWidth 28 ++ 0#32) := by
  have both : fifo8to32 (sent host (sipSendRecvCommand host cmd)) =
      (sipSends cmd).flatMap Call.words ++
        ((sipWrites cmd).flatMap Call.words ++ sipReads.flatMap Call.words) := by
    rw [sipSendRecvCommand_eq, fifo8to32_buffer, List.flatMap_append, List.flatMap_append,
      List.append_assoc]
  refine ⟨?_, ?_, fun addr val small => ⟨?_, ?_⟩⟩
  · rintro buf (rfl | rfl) commands whole serves nonzero
    · rw [sipSendCommand_eq, fifo8to32_buffer] at whole
      exact exists_announced data cmd whole serves nonzero
    · rw [both, ← List.append_assoc, List.append_assoc _ _ later] at whole
      exact exists_announced data cmd whole serves nonzero
  · rintro buf first (⟨rfl, rfl⟩ | ⟨rfl, rfl⟩) commands whole serves nonzero held
    · have length : (earlier ++ (sipSends cmd ++ sipWrites cmd).flatMap Call.words).length =
          earlier.length + 9 :=
        List.length_append
      rw [both, ← List.append_assoc, ← List.append_assoc, List.append_assoc earlier,
        ← List.flatMap_append] at whole
      rw [← length] at held ⊢
      exact returned data status whole serves nonzero held
    · rw [sipRecvCommand, sipReadStatus_eq, fifo8to32_buffer] at whole
      exact returned data status whole serves nonzero held
  · exact congrArg (sipSendCommand host) (sip_fields 1 val small)
  · exact congrArg (sipSendRecvCommand host) (BitVec.or_zero.symm.trans (sip_fields 2 0 small))

/-- A register read after reset: the command is announced, and the clear status registers return
0. -/
theorem sip_round_trip_sample :
    let commands := fifo8to32 (sent .little (sipReadReg .little 0x1920))
    (∃ rise, Announced commands 0 0 (System.atOnce 13 0) 0 (2#4 ++ 0x1920#28 ++ 0#32) rise) ∧
      Returned commands 0 0 (System.atOnce 13 0) 9 0 := by
  intro commands
  obtain ⟨announced, reads, fields⟩ := sip_round_trip .little (2#4 ++ 0x1920#28 ++ 0#32) 0 [] []
    0 0 (System.atOnce 13 0)
  have built := (fields 0x1920 0 (by decide)).2
  have whole : commands = [] ++ fifo8to32 (sent .little (sipReadReg .little 0x1920)) ++ [] :=
    (List.append_nil _).symm
  have length : commands.length = 13 := by decide
  have moved : (Interpreter.interpret 0 commands).moved = 0 := by decide +kernel
  have serves : Serves (System.atOnce 13 0) commands.length
      (Interpreter.interpret 0 commands).moved := by
    rw [length, moved]
    exact System.atOnce_serves 13 0
  have nonzero : Along Interpreter.step (fun state word => ¬state.ReadsNothing word)
      (Interpreter.start 0) commands := by decide +kernel
  refine ⟨announced _ (Or.inr built) commands whole serves nonzero,
    reads _ 9 (Or.inl ⟨built, rfl⟩) commands whole serves nonzero fun n _ _ => ?_⟩
  rw [System.atOnce]
  split <;> rfl

end K71GbE.Host
