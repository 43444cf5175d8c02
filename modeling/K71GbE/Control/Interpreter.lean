/-
This file is the abstract behaviour of `control_interface`: a sequential
interpreter of the command words, as the description at the head of the source
gives it.

The interpreter takes one command word at a time, changes its registers and the
memory at once, and answers at once. It knows nothing of clocks, of FIFO flags
or of the words in flight.
-/

import K71GbE.Clocked.Machine
import K71GbE.Control.Interface

namespace K71GbE.Control

open Clocked

/-- The registers of the interpreter, the memory, and how many words were taken from the data
FIFO. -/
structure Interpreter where
  config : Fin 32 → BitVec 16
  count : BitVec 16
  address : BitVec 32
  low : BitVec 16
  memory : BitVec 32 → BitVec 32
  moved : Nat

/-- A command word, and the status inputs when it is interpreted. -/
structure Given where
  word : BitVec 32
  status : BitVec 176
deriving DecidableEq, Repr

/-- A word of the output FIFO: the upper four bits are not used. -/
def outputWord (word : BitVec 32) : BitVec 36 := 0#4 ++ word

/-- A word of the output FIFO that carries a register. -/
def registerWord (value : BitVec 16) : BitVec 36 := outputWord (0#16 ++ value)

/-- `length` consecutive words of a memory. -/
def block (memory : BitVec 32 → BitVec 32) (address : BitVec 32) (length : Nat) :
    List (BitVec 36) :=
  (List.range length).map fun k => outputWord (memory (address + BitVec.ofNat 32 k))

/-- `length` consecutive words of a sequence. -/
def segment (data : Nat → BitVec 32) (first length : Nat) : List (BitVec 36) :=
  (List.range length).map fun k => outputWord (data (first + k))

/-- The address `k + 1` words further on is `k` words after the next one. -/
theorem add_ofNat_succ (address : BitVec 32) (k : Nat) :
    address + BitVec.ofNat 32 (k + 1) = address + 1 + BitVec.ofNat 32 k := by
  rw [BitVec.ofNat_add, BitVec.add_comm (BitVec.ofNat 32 k), ← BitVec.add_assoc]
  rfl

theorem block_zero (memory : BitVec 32 → BitVec 32) (address : BitVec 32) :
    block memory address 0 = [] := rfl

/-- A block is its first word and the block one address further on. -/
theorem block_succ (memory : BitVec 32 → BitVec 32) (address : BitVec 32) (length : Nat) :
    block memory address (length + 1) =
      outputWord (memory address) :: block memory (address + 1) length := by
  rw [block, block, List.range_succ_eq_map, List.map_cons, List.map_map]
  refine congrArg₂ List.cons (by simp) (List.map_congr_left fun k _ => ?_)
  rw [Function.comp_apply, Nat.succ_eq_add_one, add_ofNat_succ]

/-- A segment is its first word and the segment one position further on. -/
theorem segment_succ (data : Nat → BitVec 32) (first length : Nat) :
    segment data first (length + 1) =
      outputWord (data first) :: segment data (first + 1) length := by
  rw [segment, segment, List.range_succ_eq_map, List.map_cons, List.map_map]
  refine congrArg₂ List.cons (by simp) (List.map_congr_left fun k _ => ?_)
  rw [Function.comp_apply, Nat.succ_eq_add_one, Nat.add_comm k 1, Nat.add_assoc]

theorem segment_zero (data : Nat → BitVec 32) (first : Nat) : segment data first 0 = [] := rfl

namespace Interpreter

/-- After reset: at least one memory read. -/
def start (memory : BitVec 32 → BitVec 32) : Interpreter := ⟨fun _ => 0, 1, 0, 0, memory, 0⟩

/-- What a command word changes. -/
def step (state : Interpreter) (word : BitVec 32) : Interpreter :=
  if readNotWrite word then
    match target (addressI word) with
    | .memHigh => { state with address := state.address + state.count.setWidth 32 }
    | _ => state
  else
    match target (addressI word) with
    | .configReg i => { state with config := Function.update state.config i (dataOf word) }
    | .memioCnt => { state with count := dataOf word }
    | .addrLow => { state with address := state.address.extractLsb' 16 16 ++ dataOf word }
    | .addrHigh => { state with address := dataOf word ++ state.address.extractLsb' 0 16 }
    | .memLow => { state with low := dataOf word }
    | .memHigh =>
      { state with
        memory := Function.update state.memory state.address (dataOf word ++ state.low)
        address := state.address + 1 }
    | .dataFifo => { state with moved := state.moved + (dataOf word).toNat + 1 }
    | _ => state

/-- The register a READ returns; a bad address returns `FFFF`. -/
def readValue (state : Interpreter) (given : Given) : BitVec 16 :=
  match target (addressI given.word) with
  | .configReg i => state.config i
  | .statusReg i => part 16 given.status i
  | .memioCnt => state.count
  | .addrLow => state.address.extractLsb' 0 16
  | .addrHigh => state.address.extractLsb' 16 16
  | _ => BitVec.allOnes 16

/-- What a command word answers: a READ of a register one word, a READ of the memory `count`
words, and a data FIFO transfer of `n` the next `n + 1` words of the data FIFO. -/
def reply (data : Nat → BitVec 32) (state : Interpreter) (given : Given) : List (BitVec 36) :=
  if readNotWrite given.word then
    match target (addressI given.word) with
    | .memHigh => block state.memory state.address state.count.toNat
    | _ => [registerWord (state.readValue given)]
  else
    match target (addressI given.word) with
    | .dataFifo => segment data state.moved ((dataOf given.word).toNat + 1)
    | _ => []

/-- The commands, one after another. -/
def interpret (memory : BitVec 32 → BitVec 32) (commands : List (BitVec 32)) : Interpreter :=
  run step (start memory) commands

/-- The answers to the commands, one after another. -/
def answers (data : Nat → BitVec 32) (memory : BitVec 32 → BitVec 32) (commands : List Given) :
    List (BitVec 36) :=
  log (fun state given => state.step given.word) (reply data) (start memory) commands

theorem interpret_map (memory : BitVec 32 → BitVec 32) (commands : List Given) :
    interpret memory (commands.map Given.word) =
      run (fun state given => state.step given.word) (start memory) commands :=
  List.foldl_map

theorem moved_le_step (state : Interpreter) (word : BitVec 32) :
    state.moved ≤ (state.step word).moved := by
  unfold step
  split
  · split <;> exact le_rfl
  · split <;> first | exact le_rfl | exact Nat.le_succ_of_le (Nat.le_add_right _ _)

/-- Words taken from the data FIFO are not put back. -/
theorem moved_le_run (state : Interpreter) (words : List (BitVec 32)) :
    state.moved ≤ (run step state words).moved := by
  induction words generalizing state with
  | nil => exact le_rfl
  | cons word rest inductionHypothesis =>
    exact (moved_le_step state word).trans (inductionHypothesis (state.step word))

/-- One more command adds its answer. -/
theorem answers_concat (data : Nat → BitVec 32) (memory : BitVec 32 → BitVec 32)
    (commands : List Given) (given : Given) :
    answers data memory (commands ++ [given]) =
      answers data memory commands ++
        (interpret memory (commands.map Given.word)).reply data given := by
  rw [answers, log_concat, ← interpret_map, answers]

theorem reply_readsMemory (data : Nat → BitVec 32) (state : Interpreter) (given : Given)
    (asked : readsMemory given.word = true) :
    state.reply data given = block state.memory state.address state.count.toNat := by
  obtain ⟨read, memory⟩ := Bool.and_eq_true_iff.mp asked
  rw [reply, if_pos read, eq_of_beq memory]

/-- A READ of address 20 while the count register is 0. -/
def ReadsNothing (state : Interpreter) (word : BitVec 32) : Prop :=
  readsMemory word = true ∧ state.count = 0

instance (state : Interpreter) (word : BitVec 32) : Decidable (state.ReadsNothing word) :=
  inferInstanceAs (Decidable (_ ∧ _))

end Interpreter

end K71GbE.Control
