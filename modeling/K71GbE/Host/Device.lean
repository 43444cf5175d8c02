/-
This file says what the calls of the host mean for the device they address, and
proves that the interpreter of the command words does exactly that.

The device has registers and a memory. A call changes them at once, and a read
call is answered with one word, or with as many words as it asks for. The
interpreter's other registers are not part of the device: the proof shows that
what one call leaves in them does not reach the next.
-/

import K71GbE.Host.Calls

namespace K71GbE.Host

open Clocked Control

/-- What the host addresses. -/
structure Device where
  config : Fin 32 → BitVec 16
  memory : BitVec 32 → BitVec 32

namespace Device

/-- Values stored at consecutive addresses. -/
def storeAll (memory : BitVec 32 → BitVec 32) (addr : BitVec 32) :
    List (BitVec 32) → BitVec 32 → BitVec 32
  | [] => memory
  | val :: rest => storeAll (Function.update memory addr val) (addr + 1) rest

/-- What a call changes. -/
def perform (device : Device) : Call → Device
  | .writeRegister i val =>
    { device with config := Function.update device.config i (val.setWidth 16) }
  | .writeMemory addr aval more =>
    { device with memory := storeAll device.memory addr (aval :: more) }
  | _ => device

/-- What a call is answered, with the status inputs at that time. -/
def reply (device : Device) (status : BitVec 176) : Call → List (BitVec 32)
  | .readRegister i => [0#16 ++ device.config i]
  | .readStatus i => [0#16 ++ part 16 status i]
  | .readMemory addr n =>
    (List.range n.value.toNat).map fun k => device.memory (addr + BitVec.ofNat 32 k)
  | _ => []

/-- The calls, one after another. -/
def run (device : Device) (calls : List Call) : Device := calls.foldl perform device

/-- What is observed of the calls, one list for each. -/
def each {Event : Type*} (observe : Device → BitVec 176 → Call → List Event) (device : Device) :
    List Call → List (BitVec 176) → List (List Event)
  | call :: rest, status :: later =>
    observe device status call :: each observe (device.perform call) rest later
  | _, _ => []

/-- The answers to the calls. -/
def replies (device : Device) (calls : List Call) (statuses : List (BitVec 176)) :
    List (List (BitVec 32)) :=
  each reply device calls statuses

end Device

/-- The number of words that a call is answered. -/
def Call.answers : Call → Nat
  | .readRegister _ => 1
  | .readStatus _ => 1
  | .readMemory _ n => n.value.toNat
  | _ => 0

/-- A call stores a word at an address. -/
def Call.Writes : Call → BitVec 32 → Prop
  | .writeMemory addr _ more, a => ∃ i < more.length + 1, a = addr + BitVec.ofNat 32 i
  | _, _ => False

namespace Device

variable {Event : Type*} (observe : Device → BitVec 176 → Call → List Event) (device : Device)

theorem length_reply (status : BitVec 176) (call : Call) :
    (device.reply status call).length = call.answers := by
  cases call with
  | readMemory addr n => rw [reply, List.length_map, List.length_range, Call.answers]
  | _ => rfl

/-- Every read call is answered with the number of words it asks for, the others not at all. -/
theorem map_length_replies {calls : List Call} {statuses : List (BitVec 176)}
    (length : statuses.length = calls.length) :
    (device.replies calls statuses).map List.length = calls.map Call.answers := by
  unfold replies
  induction calls generalizing device statuses with
  | nil => rfl
  | cons call rest inductionHypothesis =>
    cases statuses with
    | nil => cases length
    | cons status later =>
      rw [each, List.map_cons, List.map_cons, length_reply,
        inductionHypothesis _ (Nat.succ.inj length)]

/-- What is observed of a call among others. -/
theorem getElem?_each (front : List Call) (call : Call) (back : List Call)
    {statuses : List (BitVec 176)} (length : front.length < statuses.length) :
    (each observe device (front ++ call :: back) statuses)[front.length]? =
      some (observe (device.run front) statuses[front.length] call) := by
  induction front generalizing device statuses with
  | nil =>
    cases statuses with
    | nil => cases length
    | cons status later => rfl
  | cons other front inductionHypothesis =>
    cases statuses with
    | nil => cases length
    | cons status later => exact inductionHypothesis _ (Nat.lt_of_succ_lt_succ length)

/-- Storing leaves the other addresses alone. -/
theorem storeAll_of_ne (memory : BitVec 32 → BitVec 32) (addr : BitVec 32)
    {values : List (BitVec 32)} {a : BitVec 32}
    (other : ∀ i < values.length, a ≠ addr + BitVec.ofNat 32 i) :
    storeAll memory addr values a = memory a := by
  induction values generalizing memory addr with
  | nil => rfl
  | cons val rest inductionHypothesis =>
    have first : a ≠ addr := by simpa using other 0 (Nat.succ_pos _)
    rw [storeAll, inductionHypothesis, Function.update_of_ne first]
    intro i inside
    rw [← add_ofNat_succ]
    exact other (i + 1) (Nat.succ_lt_succ inside)

/-- A value is found where it was stored, unless the block wraps around and a later one is
stored at the same address. -/
theorem storeAll_value (memory : BitVec 32 → BitVec 32) (addr : BitVec 32)
    {values : List (BitVec 32)} {i : Nat} (inside : i < values.length)
    (last : values.length ≤ i + 2 ^ 32) :
    storeAll memory addr values (addr + BitVec.ofNat 32 i) = values[i] := by
  induction values generalizing memory addr i with
  | nil => cases inside
  | cons val rest inductionHypothesis =>
    rw [List.length_cons] at inside last
    cases i with
    | zero =>
      rw [storeAll, storeAll_of_ne, BitVec.add_zero, Function.update_self, List.getElem_cons_zero]
      intro j below same
      rw [← add_ofNat_succ, BitVec.add_right_inj] at same
      have value := congrArg BitVec.toNat same
      rw [BitVec.toNat_ofNat, BitVec.toNat_ofNat, Nat.mod_eq_of_lt (show j + 1 < 2 ^ 32 by omega)]
        at value
      cases value
    | succ i =>
      rw [storeAll, add_ofNat_succ, List.getElem_cons_succ]
      exact inductionHypothesis _ _ (Nat.lt_of_succ_lt_succ inside) (by omega)

theorem run_append (front back : List Call) :
    device.run (front ++ back) = (device.run front).run back :=
  List.foldl_append

/-- An address that no call writes keeps its word. -/
theorem run_memory {calls : List Call} {a : BitVec 32} (kept : ∀ call ∈ calls, ¬call.Writes a) :
    (device.run calls).memory a = device.memory a := by
  induction calls generalizing device with
  | nil => rfl
  | cons call rest inductionHypothesis =>
    obtain ⟨first, later⟩ := List.forall_mem_cons.mp kept
    have step : (device.perform call).memory a = device.memory a := by
      cases call with
      | writeMemory addr aval more =>
        exact storeAll_of_ne device.memory addr fun i inside same => first ⟨i, inside, same⟩
      | _ => rfl
    exact (inductionHypothesis (device.perform call) later).trans step

/-- What a call stored, a later one reads back, if no call between them stores at the address. -/
theorem readBack (earlier later last : List Call) (addr aval : BitVec 32) (more : List (BitVec 32))
    (source : BitVec 32) (n : Count) {statuses : List (BitVec 176)}
    (length : earlier.length + later.length + 1 < statuses.length) {i j : Nat}
    (inside : i < (aval :: more).length) (newest : (aval :: more).length ≤ i + 2 ^ 32)
    (asked : j < n.value.toNat) (same : source + BitVec.ofNat 32 j = addr + BitVec.ofNat 32 i)
    (kept : ∀ call ∈ later, ¬call.Writes (source + BitVec.ofNat 32 j)) :
    ((device.replies
        (earlier ++ .writeMemory addr aval more :: (later ++ .readMemory source n :: last))
        statuses)[earlier.length + later.length + 1]?).bind (fun words => words[j]?) =
      some (aval :: more)[i] := by
  have front : earlier ++ .writeMemory addr aval more :: (later ++ .readMemory source n :: last) =
      (earlier ++ .writeMemory addr aval more :: later) ++ .readMemory source n :: last := by
    rw [List.append_assoc, List.cons_append]
  have count : (earlier ++ .writeMemory addr aval more :: later).length =
      earlier.length + later.length + 1 := by
    rw [List.length_append, List.length_cons, Nat.add_assoc]
  have found : (device.run (earlier ++ .writeMemory addr aval more :: later)).memory
      (source + BitVec.ofNat 32 j) = (aval :: more)[i] := by
    rw [run_append]
    refine (run_memory ((device.run earlier).perform _) kept).trans ?_
    rw [same]
    exact storeAll_value _ addr inside newest
  rw [front, replies, ← count, getElem?_each reply device _ _ last (by rw [count]; exact length),
    Option.bind_some, reply, ← found]
  simp [asked]

end Device

/-! ### The interpreter on the words of a call -/

/-- The device an interpreter stands for. -/
def deviceOf (state : Interpreter) : Device := ⟨state.config, state.memory⟩

section Words

variable (state : Interpreter) (data : BitVec 16)

theorem step_addrLow : state.step (0x0011#16 ++ data) =
    { state with address := state.address.extractLsb' 16 16 ++ data } := by
  rw [Interpreter.step, readNotWrite_word, addressI_word, dataOf_word]
  rfl

theorem step_addrHigh : state.step (0x0012#16 ++ data) =
    { state with address := data ++ state.address.extractLsb' 0 16 } := by
  rw [Interpreter.step, readNotWrite_word, addressI_word, dataOf_word]
  rfl

theorem step_memLow : state.step (0x0013#16 ++ data) = { state with low := data } := by
  rw [Interpreter.step, readNotWrite_word, addressI_word, dataOf_word]
  rfl

theorem step_memHigh : state.step (0x0014#16 ++ data) =
    { state with
      memory := Function.update state.memory state.address (data ++ state.low)
      address := state.address + 1 } := by
  rw [Interpreter.step, readNotWrite_word, addressI_word, dataOf_word]
  rfl

theorem step_count : state.step (0x0010#16 ++ data) = { state with count := data } := by
  rw [Interpreter.step, readNotWrite_word, addressI_word, dataOf_word]
  rfl

theorem step_pulse : state.step (0x000b#16 ++ data) = state := by
  rw [Interpreter.step, readNotWrite_word, addressI_word, dataOf_word]
  rfl

theorem step_readMemory : state.step (0x8014#16 ++ data) =
    { state with address := state.address + state.count.setWidth 32 } := by
  rw [Interpreter.step, readNotWrite_word, addressI_word, dataOf_word]
  rfl

end Words

theorem registerTag (i : Fin 32) :
    ((0x0020 + BitVec.ofNat 32 i : BitVec 32).setWidth 16).getLsbD 15 = false ∧
      target (((0x0020 + BitVec.ofNat 32 i : BitVec 32).setWidth 16).extractLsb' 0 12).toNat =
        .configReg i := by
  revert i
  decide

theorem readRegisterTag (i : Fin 32) :
    ((0x8020 + BitVec.ofNat 32 i : BitVec 32).setWidth 16).getLsbD 15 = true ∧
      target (((0x8020 + BitVec.ofNat 32 i : BitVec 32).setWidth 16).extractLsb' 0 12).toNat =
        .configReg i := by
  revert i
  decide

theorem readStatusTag (i : Fin 11) :
    ((0x8000 + BitVec.ofNat 32 i : BitVec 32).setWidth 16).getLsbD 15 = true ∧
      target (((0x8000 + BitVec.ofNat 32 i : BitVec 32).setWidth 16).extractLsb' 0 12).toNat =
        .statusReg i := by
  revert i
  decide

/-- The two halves of a word make it up. -/
theorem append_halves (word : BitVec 32) :
    (word >>> 16).setWidth 16 ++ word.setWidth 16 = word := by
  refine BitVec.eq_of_getLsbD_eq fun bit small => ?_
  simp only [BitVec.getLsbD_append, BitVec.getLsbD_setWidth, BitVec.getLsbD_ushiftRight]
  split_ifs with low
  · simp [low]
  · simp [show bit - 16 < 16 by omega, show 16 + (bit - 16) = bit by omega]

/-- The address words load the address register. -/
theorem run_addressWords (state : Interpreter) (addr : BitVec 32) :
    run Interpreter.step state (Call.addressWords addr) = { state with address := addr } := by
  have low : (state.address.extractLsb' 16 16 ++ addr.setWidth 16 : BitVec 32).extractLsb' 0 16 =
      addr.setWidth 16 := dataOf_word _ _
  rw [Call.addressWords, run_cons, run_cons, run_nil, step_addrLow, step_addrHigh, low,
    append_halves]

/-- The words of a value store it and advance the address. -/
theorem run_storeWords (state : Interpreter) (val : BitVec 32) :
    run Interpreter.step state (Call.storeWords val) =
      { state with
        low := val.setWidth 16
        memory := Function.update state.memory state.address val
        address := state.address + 1 } := by
  rw [Call.storeWords, run_cons, run_cons, run_nil, step_memLow, step_memHigh, append_halves]

theorem run_flatMap_storeWords (state : Interpreter) (values : List (BitVec 32)) :
    deviceOf (run Interpreter.step state (values.flatMap Call.storeWords)) =
      ⟨state.config, Device.storeAll state.memory state.address values⟩ := by
  induction values generalizing state with
  | nil => rfl
  | cons val rest inductionHypothesis =>
    rw [List.flatMap_cons, run_append, inductionHypothesis, run_storeWords, Device.storeAll]

/-- What a call means for the device, its words do to it. -/
theorem run_words (state : Interpreter) (call : Call) :
    deviceOf (run Interpreter.step state call.words) = (deviceOf state).perform call := by
  cases call with
  | writeRegister i val =>
    obtain ⟨write, register⟩ := registerTag i
    rw [Call.words, run_cons, run_nil, Interpreter.step, readNotWrite_word, addressI_word,
      dataOf_word, write, register]
    rfl
  | readRegister i =>
    obtain ⟨read, register⟩ := readRegisterTag i
    rw [Call.words, run_cons, run_nil, Interpreter.step, readNotWrite_word, addressI_word,
      dataOf_word, read, register]
    rfl
  | readStatus i =>
    obtain ⟨read, register⟩ := readStatusTag i
    rw [Call.words, run_cons, run_nil, Interpreter.step, readNotWrite_word, addressI_word,
      dataOf_word, read, register]
    rfl
  | sendPulse mask =>
    rw [Call.words, run_cons, run_nil, step_pulse]
    rfl
  | writeMemory addr aval more =>
    rw [Call.words, run_append, run_addressWords, run_flatMap_storeWords]
    rfl
  | readMemory addr n =>
    rw [Call.words, run_append, run_addressWords, run_cons, run_cons, run_nil, step_count,
      step_readMemory]
    rfl

end K71GbE.Host
