/-
This file is about sequences of calls of the host: what a call means, and that
the command words the encoders build make the interpreter do it.

A call names registers, memory words and pulses. Its command words also leave a
count and an address behind, and the half of a memory word. None of these is
part of what the calls mean, and every call sets those it uses.
-/

import K71GbE.Control.Interpreter
import K71GbE.Host.Command

namespace K71GbE.Host

open Clocked Control

/-! ### Command words as an address part and a data part -/

theorem or_low (tag : BitVec 16) (x : BitVec 32) :
    (tag ++ 0#16 : BitVec 32) ||| (0x0000ffff &&& x) = tag ++ x.setWidth 16 := by
  ext bit small
  have mask : (0x0000ffff : BitVec 32) = 0#16 ++ BitVec.allOnes 16 := rfl
  rw [mask]
  simp only [BitVec.getElem_or, BitVec.getElem_and, BitVec.getElem_append, BitVec.getElem_setWidth,
    BitVec.getElem_zero, BitVec.getElem_allOnes]
  split_ifs with low
  · rw [Bool.false_or, Bool.true_and, BitVec.getLsbD_eq_getElem small]
  · rw [Bool.false_and, Bool.or_false]

theorem and_high (x : BitVec 32) :
    (0xffff0000 : BitVec 32) &&& (x <<< 16) = x.setWidth 16 ++ 0#16 := by
  refine BitVec.eq_of_getLsbD_eq fun bit small => ?_
  have mask : (0xffff0000 : BitVec 32) = BitVec.allOnes 16 ++ 0#16 := rfl
  rw [mask]
  simp only [BitVec.getLsbD_and, BitVec.getLsbD_append, BitVec.getLsbD_shiftLeft,
    BitVec.getLsbD_zero, BitVec.getLsbD_allOnes, BitVec.getLsbD_setWidth]
  split_ifs with low
  · rw [Bool.false_and]
  · simp [small, low]

@[simp] theorem readNotWrite_word (tag data : BitVec 16) :
    readNotWrite (tag ++ data : BitVec 32) = tag.getLsbD 15 := by
  rw [readNotWrite, BitVec.getLsbD_append]
  rfl

@[simp] theorem addressI_word (tag data : BitVec 16) :
    addressI (tag ++ data : BitVec 32) = (tag.extractLsb' 0 12).toNat := by
  rw [addressI, BitVec.extractLsb'_append_eq_of_le (by decide)]

@[simp] theorem dataOf_word (tag data : BitVec 16) : dataOf (tag ++ data : BitVec 32) = data := by
  rw [dataOf, BitVec.extractLsb'_append_eq_of_add_le (by decide), BitVec.extractLsb'_eq_self]

/-! ### Calls -/

/-- The number of words of a read: at least one, and within the count register. -/
structure Count where
  value : BitVec 32
  positive : 0 < value.toNat
  small : value.toNat ≤ 65535

/-- A call of an encoder. -/
inductive Call where
  | writeRegister (i : Fin 32) (val : BitVec 32)
  | readRegister (i : Fin 32)
  | readStatus (i : Fin 11)
  | sendPulse (mask : BitVec 32)
  | writeMemory (addr aval : BitVec 32) (more : List (BitVec 32))
  | readMemory (addr : BitVec 32) (n : Count)

namespace Call

/-- The buffer that the encoder fills. -/
def buffer (host : Endian) : Call → List (BitVec 32)
  | writeRegister i val => cmdWriteRegister host (BitVec.ofNat 32 i) val
  | readRegister i => cmdReadRegister host (BitVec.ofNat 32 i)
  | readStatus i => cmdReadStatus host (BitVec.ofNat 32 i)
  | sendPulse mask => cmdSendPulse host mask
  | writeMemory addr aval more => cmdWriteMemory host addr aval more
  | readMemory addr n => cmdReadMemory host addr n.value

/-- The words that store a value at the address register. -/
def storeWords (val : BitVec 32) : List (BitVec 32) :=
  [0x0013#16 ++ val.setWidth 16, 0x0014#16 ++ (val >>> 16).setWidth 16]

/-- The words that set the address register. -/
def addressWords (addr : BitVec 32) : List (BitVec 32) :=
  [0x0011#16 ++ addr.setWidth 16, 0x0012#16 ++ (addr >>> 16).setWidth 16]

/-- The command words of a call, each as its address part and its data. -/
def words : Call → List (BitVec 32)
  | writeRegister i val => [(0x0020 + BitVec.ofNat 32 i).setWidth 16 ++ val.setWidth 16]
  | readRegister i => [(0x8020 + BitVec.ofNat 32 i).setWidth 16 ++ 0#16]
  | readStatus i => [(0x8000 + BitVec.ofNat 32 i).setWidth 16 ++ 0#16]
  | sendPulse mask => [0x000b#16 ++ mask.setWidth 16]
  | writeMemory addr aval more => addressWords addr ++ (aval :: more).flatMap storeWords
  | readMemory addr n => addressWords addr ++ [0x0010#16 ++ n.value.setWidth 16, 0x8014#16 ++ 0#16]

theorem memoryPair_eq (val : BitVec 32) : memoryPair val = storeWords val :=
  congrArg₂ (fun low high => [low, high]) (or_low 0x0013 val) (or_low 0x0014 (val >>> 16))

theorem addressWords_eq (addr : BitVec 32) :
    [0x00110000 ||| (0x0000ffff &&& addr),
        0x00120000 ||| ((0x0000ffff : BitVec 32) &&& (addr >>> 16))] =
      addressWords addr :=
  congrArg₂ (fun low high => [low, high]) (or_low 0x0011 addr) (or_low 0x0012 (addr >>> 16))

/-- The encoders build the words of the call. -/
theorem buffer_eq (host : Endian) (call : Call) :
    call.buffer host = conv32networkEndian host call.words := by
  unfold buffer words
  cases call with
  | writeRegister i val =>
    show conv32networkEndian host [_ ||| _] = _
    rw [and_high, or_low]
  | readRegister i =>
    show conv32networkEndian host [_ &&& _] = _
    rw [and_high]
  | readStatus i =>
    show conv32networkEndian host [_ &&& _] = _
    rw [and_high]
  | sendPulse mask =>
    exact congrArg (fun word => conv32networkEndian host [word]) (or_low 0x000b mask)
  | writeMemory addr aval more =>
    have pairs : more.flatMap memoryPair = more.flatMap storeWords :=
      List.flatMap_congr fun val _ => memoryPair_eq val
    refine congrArg (conv32networkEndian host) ?_
    rw [addressWords_eq, memoryPair_eq, pairs, List.append_assoc]
    rfl
  | readMemory addr n =>
    refine congrArg (conv32networkEndian host) ?_
    show _ = addressWords addr ++ _
    rw [← addressWords_eq]
    exact congrArg (fun word => [_, _, word, _]) (or_low 0x0010 n.value)

end Call

/-- The bytes that the calls return, one after another. -/
def callBytes (host : Endian) (calls : List Call) : List (BitVec 8) :=
  calls.flatMap fun call => sent host (call.buffer host)

/-- The command words that the FPGA finds in these bytes. -/
def callWords (host : Endian) (calls : List Call) : List (BitVec 32) :=
  fifo8to32 (callBytes host calls)

/-- On every host they are the words of the calls. -/
theorem callWords_eq (host : Endian) (calls : List Call) :
    callWords host calls = calls.flatMap Call.words := by
  have bytes : callBytes host calls =
      sent host (conv32networkEndian host (calls.flatMap Call.words)) := by
    induction calls with
    | nil => rfl
    | cons call rest inductionHypothesis =>
      rw [callBytes, List.flatMap_cons, ← callBytes, inductionHypothesis, call.buffer_eq,
        List.flatMap_cons, conv32networkEndian_append, sent_append]
  rw [callWords, bytes, fifo8to32_sent]

end K71GbE.Host
