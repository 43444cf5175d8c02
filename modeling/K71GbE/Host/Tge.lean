/-
This file models `tge.c`: the frames that the host builds in its memory, and the
command words that load them into the packet RAM and start their transmission.

A frame is built of 16-bit words, which are brought into network order. The
encoder of the memory writes takes the same memory for 32-bit words. Allocating
and copying the buffers is left out.
-/

import K71GbE.Host.Calls

namespace K71GbE.Host

open Clocked

variable {w n : Nat}

/-! ### Words in memory -/

/-- The word that these bytes are in the memory of the host. -/
def load (host : Endian) (bytes : List (BitVec 8)) : BitVec w :=
  match host with
  | .little => ofLanes bytes
  | .big => ofMsbFirst bytes

theorem store_load (host : Endian) {bytes : List (BitVec 8)} (length : bytes.length = n)
    (fits : n * 8 ≤ w) : store host n (load host bytes : BitVec w) = bytes := by
  cases host with
  | little => exact lanes_ofLanes length fits
  | big => exact msbFirst_ofMsbFirst length fits

@[simp] theorem length_store (host : Endian) (word : BitVec w) :
    (store host n word).length = n := by
  cases host with
  | little => exact length_lanes word
  | big => exact length_msbFirst word

/-- The bytes of a buffer of 16-bit words. -/
def bytes16 (host : Endian) (buf : List (BitVec 16)) : List (BitVec 8) := buf.flatMap (store host 2)

theorem length_bytes16 (host : Endian) (buf : List (BitVec 16)) :
    (bytes16 host buf).length = buf.length * 2 := by
  rw [bytes16, List.length_flatMap, List.map_congr_left fun word _ => length_store host word,
    List.map_const', List.sum_replicate_nat]

/-- `(uint32_t *)buf`: two words of the buffer are taken for one. -/
def words32 (host : Endian) : List (BitVec 16) → List (BitVec 32)
  | first :: second :: rest =>
    load host (store host 2 first ++ store host 2 second) :: words32 host rest
  | _ => []

/-- A cast leaves the bytes in memory as they are. -/
theorem sent_words32 (host : Endian) (buf : List (BitVec 16)) (even : 2 ∣ buf.length) :
    sent host (words32 host buf) = bytes16 host buf := by
  induction buf using words32.induct with
  | case1 first second rest inductionHypothesis =>
    have shorter : 2 ∣ rest.length := (Nat.dvd_add_left (Nat.dvd_refl 2)).mp even
    have pair : store host 4
          (load host (store host 2 first ++ store host 2 second) : BitVec 32) =
        store host 2 first ++ store host 2 second :=
      store_load host (by rw [List.length_append, length_store, length_store]) (by decide)
    have whole : bytes16 host (first :: second :: rest) =
        store host 2 first ++ store host 2 second ++ bytes16 host rest := by
      rw [bytes16, List.flatMap_cons, List.flatMap_cons, List.append_assoc, bytes16]
    rw [words32, sent, List.flatMap_cons, ← sent, inductionHypothesis shorter, pair, whole]
  | case2 buf short =>
    match buf with
    | [] => rfl
    | [_] => simp at even
    | first :: second :: rest => exact absurd rfl (short first second rest)

/-! ### The frames -/

/-- `(x >> 8*i) & 0xffff`, assigned to a 16-bit word. -/
def word16 (x : BitVec w) (i : Nat) : BitVec 16 := ((x >>> (i * 8)) &&& 0xffff).setWidth 16

/-- `tge_build_arp_reply`. -/
def tgeBuildArpReply (host : Endian) (srcMAC : BitVec 64) (srcIP : BitVec 32) (dstMAC : BitVec 64)
    (dstIP : BitVec 32) : List (BitVec 16) :=
  conv16networkEndian host
    [word16 dstMAC 4, word16 dstMAC 2, word16 dstMAC 0,
      word16 srcMAC 4, word16 srcMAC 2, word16 srcMAC 0,
      0x0806, 0x0001, 0x0800, 0x0604, 0x0002,
      word16 srcMAC 4, word16 srcMAC 2, word16 srcMAC 0,
      word16 srcIP 2, word16 srcIP 0,
      word16 dstMAC 4, word16 dstMAC 2, word16 dstMAC 0,
      word16 dstIP 2, word16 dstIP 0]

/-- The words that `tge_build_udp` writes first, with the checksum left 0. -/
def udpWords (srcMAC : BitVec 64) (srcIP : BitVec 32) (srcPort : BitVec 16) (dstMAC : BitVec 64)
    (dstIP : BitVec 32) (dstPort : BitVec 16) (dataLen : BitVec 64) : List (BitVec 16) :=
  [word16 dstMAC 4, word16 dstMAC 2, word16 dstMAC 0,
    word16 srcMAC 4, word16 srcMAC 2, word16 srcMAC 0,
    0x0800, 0x4500, ((dataLen + 8 + 6 + 20) &&& 0xffff).setWidth 16, 0x0000, 0x0000, 0x4011, 0x0000,
    word16 srcIP 2, word16 srcIP 0,
    word16 dstIP 2, word16 dstIP 0,
    srcPort &&& 0xffff, dstPort &&& 0xffff,
    ((dataLen + 8 + 6) &&& 0xffff).setWidth 16, 0x0000,
    -- dummy words, so that the header ends at a 64-bit boundary
    0x794d, 0x6569, 0x4950]

/-- The sum of words 7 to 16, the IPv4 header. -/
def checksum (buf : List (BitVec 16)) : BitVec 32 :=
  ((buf.drop 7).take 10).foldl (fun checksum word => checksum + word.setWidth 32) 0

/-- `tge_build_udp`. -/
def tgeBuildUdp (host : Endian) (srcMAC : BitVec 64) (srcIP : BitVec 32) (srcPort : BitVec 16)
    (dstMAC : BitVec 64) (dstIP : BitVec 32) (dstPort : BitVec 16) (dataLen : BitVec 64) :
    List (BitVec 16) :=
  let buf := udpWords srcMAC srcIP srcPort dstMAC dstIP dstPort dataLen
  let sum := checksum buf
  conv16networkEndian host
    (buf.set 12 (~~~(((sum >>> 16) &&& 0xffff) + (sum &&& 0xffff)).setWidth 16))

/-! ### The command words -/

/-- What both senders do with the words of a frame: they are written to the memory from address 0
on, the number of bytes to register 0, and a pulse starts the transmission. -/
def sendWords (host : Endian) (words : List (BitVec 32)) (nbytes : BitVec 32) :
    List (BitVec 32) :=
  cmdWriteMemory host 0 (words.headD 0) words.tail ++ cmdWriteRegister host 0 nbytes ++
    cmdSendPulse host 0x01

/-- `tge_cmd_send_arp_reply`. The buffer has room for one word more than the frame, so that it is a
whole number of 32-bit words. -/
def tgeCmdSendArpReply (host : Endian) (srcMAC : BitVec 64) (srcIP : BitVec 32)
    (dstMAC : BitVec 64) (dstIP : BitVec 32) : List (BitVec 32) :=
  let arpBuf := tgeBuildArpReply host srcMAC srcIP dstMAC dstIP
  sendWords host (words32 host (arpBuf ++ [0])) (BitVec.ofNat 32 (arpBuf.length * 2))

/-- `tge_cmd_send_udp`. -/
def tgeCmdSendUdp (host : Endian) (srcMAC : BitVec 64) (srcIP : BitVec 32) (srcPort : BitVec 16)
    (dstMAC : BitVec 64) (dstIP : BitVec 32) (dstPort : BitVec 16) (dataLen : BitVec 64) :
    List (BitVec 32) :=
  let udpBuf := tgeBuildUdp host srcMAC srcIP srcPort dstMAC dstIP dstPort dataLen
  sendWords host (words32 host udpBuf)
    ((BitVec.ofNat 64 (udpBuf.length * 2) + dataLen).setWidth 32)

/-- The calls of the encoders that a sender makes. -/
def sendCalls (words : List (BitVec 32)) (nbytes : BitVec 32) : List Call :=
  [.writeMemory 0 (words.headD 0) words.tail, .writeRegister ⟨0, by decide⟩ nbytes, .sendPulse 0x01]

theorem sent_sendWords (host : Endian) (words : List (BitVec 32)) (nbytes : BitVec 32) :
    sent host (sendWords host words nbytes) = callBytes host (sendCalls words nbytes) := by
  rw [sendWords, sent_append, sent_append, List.append_assoc, callBytes, sendCalls,
    List.flatMap_cons, List.flatMap_cons, List.flatMap_singleton]
  rfl

end K71GbE.Host
