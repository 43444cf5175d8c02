/-
This file models `command.c`, the encoders that the host uses for the command
words of `control_interface`, and the way of their bytes into the FPGA.

A buffer is the list of the words that an encoder leaves in it, in the order of
the host; the bytes sent are those of the buffer in memory. The host may be of
either byte order. Allocating the buffer is left out.
-/

import K71GbE.Clocked.Lanes

namespace K71GbE.Host

open Clocked

/-! ### Byte order -/

/-- The byte order of the host. -/
inductive Endian where
  | little | big
deriving DecidableEq, Repr

variable {w : Nat}

/-- The bytes of a word of `n` bytes in the memory of the host. -/
def store (host : Endian) (n : Nat) (word : BitVec w) : List (BitVec 8) :=
  match host with
  | .little => lanes 8 n word
  | .big => msbFirst 8 n word

/-- `htons` and `htonl`, for a word of `n` bytes. -/
def hton (host : Endian) (n : Nat) (word : BitVec w) : BitVec w :=
  match host with
  | .little => ofMsbFirst (lanes 8 n word)
  | .big => word

/-- In network order the most significant byte is the first one in memory, on every host. -/
theorem store_hton (host : Endian) {n : Nat} (word : BitVec w) (bytes : n * 8 = w) :
    store host n (hton host n word) = msbFirst 8 n word := by
  cases host with
  | big => rfl
  | little =>
    have reversed : msbFirst 8 n (hton .little n word) = lanes 8 n word :=
      msbFirst_ofMsbFirst (length_lanes word) bytes.le
    rw [store, ← List.reverse_reverse (lanes 8 n _), ← msbFirst, reversed, msbFirst]

/-- `conv16network_endian`. -/
def conv16networkEndian (host : Endian) (buf : List (BitVec 16)) : List (BitVec 16) :=
  buf.map (hton host 2)

/-- `conv32network_endian`. -/
def conv32networkEndian (host : Endian) (buf : List (BitVec 32)) : List (BitVec 32) :=
  buf.map (hton host 4)

/-! ### The encoders -/

section Encoders

variable (host : Endian)

/-- `cmd_read_status`. -/
def cmdReadStatus (addr : BitVec 32) : List (BitVec 32) :=
  conv32networkEndian host [(0xffff0000 : BitVec 32) &&& ((0x8000 + addr) <<< 16)]

/-- `cmd_send_pulse`. -/
def cmdSendPulse (mask : BitVec 32) : List (BitVec 32) :=
  conv32networkEndian host [0x000b0000 ||| (0x0000ffff &&& mask)]

/-- The two words of `cmd_write_memory` for one value. -/
def memoryPair (val : BitVec 32) : List (BitVec 32) :=
  [0x00130000 ||| (0x0000ffff &&& val),
    0x00140000 ||| ((0x0000ffff : BitVec 32) &&& (val >>> 16))]

/-- `cmd_write_memory` for `nval` values from `*aval` on. The first value is read in any case. -/
def cmdWriteMemory (addr aval : BitVec 32) (more : List (BitVec 32)) : List (BitVec 32) :=
  conv32networkEndian host
    ([0x00110000 ||| (0x0000ffff &&& addr),
        0x00120000 ||| ((0x0000ffff : BitVec 32) &&& (addr >>> 16))] ++
      memoryPair aval ++ more.flatMap memoryPair)

/-- `cmd_read_memory`. -/
def cmdReadMemory (addr n : BitVec 32) : List (BitVec 32) :=
  conv32networkEndian host
    [0x00110000 ||| (0x0000ffff &&& addr),
      0x00120000 ||| ((0x0000ffff : BitVec 32) &&& (addr >>> 16)),
      0x00100000 ||| (0x0000ffff &&& n), 0x80140000]

/-- `cmd_write_register`. -/
def cmdWriteRegister (addr val : BitVec 32) : List (BitVec 32) :=
  conv32networkEndian host
    [((0xffff0000 : BitVec 32) &&& ((0x0020 + addr) <<< 16)) ||| (0x0000ffff &&& val)]

/-- `cmd_read_register`. -/
def cmdReadRegister (addr : BitVec 32) : List (BitVec 32) :=
  conv32networkEndian host [(0xffff0000 : BitVec 32) &&& ((0x8020 + addr) <<< 16)]

/-- `cmd_read_datafifo`. -/
def cmdReadDatafifo (n : BitVec 32) : List (BitVec 32) :=
  conv32networkEndian host
    [((0xffff0000 : BitVec 32) &&& (0x0019 <<< 16)) ||| (0x0000ffff &&& n)]

end Encoders

/-! ### From the buffer to the command FIFO -/

/-- The bytes of a buffer, as they are sent. -/
def sent (host : Endian) (buf : List (BitVec 32)) : List (BitVec 8) := buf.flatMap (store host 4)

/-- `fifo8to32`: four bytes make a word, the first one its most significant byte. -/
def fifo8to32 : List (BitVec 8) → List (BitVec 32)
  | first :: second :: third :: fourth :: rest =>
    (first ++ second ++ third ++ fourth) :: fifo8to32 rest
  | _ => []

/-- `fifo32to8`: a word is read as four bytes, its most significant byte first. -/
def fifo32to8 (words : List (BitVec 32)) : List (BitVec 8) := words.flatMap (msbFirst 8 4)

theorem length_fifo32to8 (words : List (BitVec 32)) :
    (fifo32to8 words).length = 4 * words.length := by
  induction words with
  | nil => rfl
  | cons word rest inductionHypothesis =>
    rw [fifo32to8, List.flatMap_cons, List.length_append, ← fifo32to8, inductionHypothesis,
      length_msbFirst, List.length_cons, Nat.mul_succ, Nat.add_comm]

theorem append_bytes (word : BitVec 32) :
    part 8 word 3 ++ part 8 word 2 ++ part 8 word 1 ++ part 8 word 0 = word := by
  ext bit small
  simp only [BitVec.getElem_append, part, BitVec.getElem_extractLsb']
  split_ifs <;> rw [BitVec.getLsbD_eq_getElem] <;> congr 1 <;> omega

/-- What the FPGA takes from its FIFO are the words of the buffer before they were brought into
network order. -/
theorem fifo8to32_sent (host : Endian) (buf : List (BitVec 32)) :
    fifo8to32 (sent host (conv32networkEndian host buf)) = buf := by
  induction buf with
  | nil => rfl
  | cons word rest inductionHypothesis =>
    have bytes : store host 4 (hton host 4 word) =
        [part 8 word 3, part 8 word 2, part 8 word 1, part 8 word 0] :=
      store_hton host word rfl
    unfold conv32networkEndian sent at inductionHypothesis ⊢
    rw [List.map_cons, List.flatMap_cons, bytes]
    exact congrArg₂ List.cons (append_bytes word) inductionHypothesis

theorem sent_append (host : Endian) (first second : List (BitVec 32)) :
    sent host (first ++ second) = sent host first ++ sent host second :=
  List.flatMap_append

theorem conv32networkEndian_append (host : Endian) (first second : List (BitVec 32)) :
    conv32networkEndian host (first ++ second) =
      conv32networkEndian host first ++ conv32networkEndian host second :=
  List.map_append

end K71GbE.Host
