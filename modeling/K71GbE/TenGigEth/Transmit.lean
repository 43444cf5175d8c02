/-
This file follows a packet from the host to the stream: the host builds its words,
`control_interface` writes them to the packet RAM and the number of bytes to a
register, and the packet generator sends them.

The packet RAM listens to the memory port of `control_interface`. It is written
in words of 32 bits and read in words of 64 bits, with the word of the even
address in the low half.
-/

import K71GbE.Host.Execution
import K71GbE.Host.Tge
import K71GbE.TenGigEth.PacketGen

namespace K71GbE.TenGigEth

open Clocked Control Host

/-! ### The packet RAM -/

/-- The RAM after some writes, at `MEM_ADDR(11 DOWNTO 0)` each. -/
def packetRam (old : BitVec 12 → BitVec 32) (writes : List (BitVec 32 × BitVec 32)) :
    BitVec 12 → BitVec 32 :=
  writes.foldl (fun ram write => Function.update ram (write.1.setWidth 12) write.2) old

/-- The port of 64 bits. -/
def readPort (ram : BitVec 12 → BitVec 32) (addrb : BitVec 11) : BitVec 64 :=
  ram (addrb ++ 1#1) ++ ram (addrb ++ 0#1)

section Ram

variable (ram : BitVec 12 → BitVec 32) (values : List (BitVec 32)) (first : Nat) {i : Nat}

theorem packetRam_append (front back : List (BitVec 32 × BitVec 32)) :
    packetRam ram (front ++ back) = packetRam (packetRam ram front) back :=
  List.foldl_append

theorem packetRam_cons (val : BitVec 32) (rest : List (BitVec 32)) :
    packetRam ram (storesFrom (BitVec.ofNat 32 first) (val :: rest)) =
      packetRam (Function.update ram (BitVec.ofNat 12 first) val)
        (storesFrom (BitVec.ofNat 32 (first + 1)) rest) := by
  rw [storesFrom, packetRam, List.foldl_cons, BitVec.setWidth_ofNat_of_le (by decide),
    BitVec.ofNat_add]
  rfl

/-- A block leaves the addresses below it alone. -/
theorem packetRam_below (within : first + values.length ≤ 2 ^ 12) (below : i < first) :
    packetRam ram (storesFrom (BitVec.ofNat 32 first) values) (BitVec.ofNat 12 i) =
      ram (BitVec.ofNat 12 i) := by
  induction values generalizing ram first with
  | nil => rfl
  | cons val rest inductionHypothesis =>
    rw [List.length_cons] at within
    have other : BitVec.ofNat 12 i ≠ BitVec.ofNat 12 first := by
      intro same
      have value := congrArg BitVec.toNat same
      rw [BitVec.toNat_ofNat, BitVec.toNat_ofNat, Nat.mod_eq_of_lt (by omega),
        Nat.mod_eq_of_lt (by omega)] at value
      exact below.ne value
    rw [packetRam_cons, inductionHypothesis _ _ (by omega) (Nat.lt_succ_of_lt below),
      Function.update_of_ne other]

/-- Every word of a block is found at its address. -/
theorem packetRam_value (within : first + values.length ≤ 2 ^ 12) (inside : i < values.length) :
    packetRam ram (storesFrom (BitVec.ofNat 32 first) values) (BitVec.ofNat 12 (first + i)) =
      values[i] := by
  induction values generalizing ram first i with
  | nil => cases inside
  | cons val rest inductionHypothesis =>
    rw [List.length_cons] at within inside
    cases i with
    | zero =>
      have kept := packetRam_below (Function.update ram (BitVec.ofNat 12 first) val) rest
        (first + 1) (by omega) (Nat.lt_succ_self first)
      rwa [← packetRam_cons, Function.update_self] at kept
    | succ i =>
      have step := inductionHypothesis (Function.update ram (BitVec.ofNat 12 first) val)
        (first + 1) (by omega) (Nat.lt_of_succ_lt_succ inside)
      rwa [← packetRam_cons, Nat.succ_add_eq_add_succ] at step

theorem append_bit (k : Nat) {bit : Nat} (one : bit < 2) :
    BitVec.ofNat 11 k ++ BitVec.ofNat 1 bit = BitVec.ofNat 12 (k * 2 + bit) := by
  refine BitVec.eq_of_toNat_eq ?_
  rw [BitVec.toNat_append, BitVec.toNat_ofNat, BitVec.toNat_ofNat, BitVec.toNat_ofNat,
    Nat.mod_eq_of_lt (show bit < 2 ^ 1 from one), Nat.shiftLeft_eq, Nat.mul_comm (k % 2 ^ 11),
    ← Nat.two_pow_add_eq_or_of_lt (show bit < 2 ^ 1 from one)]
  omega

/-- The port of 64 bits shows the bytes in the order of the 32-bit words. -/
theorem ramBytes_readPort (n : Nat) :
    ramBytes (readPort ram) n =
      (List.range (n * 2)).flatMap fun k => lanes 8 4 (ram (BitVec.ofNat 12 k)) := by
  have word (k : Nat) : lanes 8 8 (readPort ram (BitVec.ofNat 11 k)) =
      lanes 8 4 (ram (BitVec.ofNat 12 (k * 2))) ++
        lanes 8 4 (ram (BitVec.ofNat 12 (k * 2 + 1))) := by
    have odd : BitVec.ofNat 11 k ++ 1#1 = BitVec.ofNat 12 (k * 2 + 1) := append_bit k (by decide)
    have even : BitVec.ofNat 11 k ++ 0#1 = BitVec.ofNat 12 (k * 2) := append_bit k (by decide)
    have sides : lanes 8 (4 + 4) (ram (BitVec.ofNat 12 (k * 2 + 1)) ++
          ram (BitVec.ofNat 12 (k * 2))) =
        lanes 8 4 (ram (BitVec.ofNat 12 (k * 2))) ++
          lanes 8 4 (ram (BitVec.ofNat 12 (k * 2 + 1))) :=
      lanes_append _ _ rfl
    rw [readPort, odd, even]
    exact sides
  induction n with
  | zero => rfl
  | succ n inductionHypothesis =>
    have split : ramBytes (readPort ram) (n + 1) =
        ramBytes (readPort ram) n ++ lanes 8 8 (readPort ram (BitVec.ofNat 11 n)) := by
      rw [ramBytes, List.range_succ, List.flatMap_append, List.flatMap_singleton, ramBytes]
    rw [split, inductionHypothesis, word, Nat.add_mul, Nat.one_mul, List.range_succ,
      List.range_succ, List.flatMap_append, List.flatMap_append, List.flatMap_singleton,
      List.flatMap_singleton, List.append_assoc]

/-- Words at the beginning of the RAM are read as the bytes they are sent as. -/
theorem take_ramBytes (held : ∀ k (inside : k < values.length), ram (BitVec.ofNat 12 k) = values[k])
    {n : Nat} (fewer : values.length ≤ n * 2) {count : Nat} (short : count ≤ values.length * 4) :
    (ramBytes (readPort ram) n).take count = (sent .little values).take count := by
  obtain ⟨more, total⟩ := Nat.exists_eq_add_of_le fewer
  have words : (List.range values.length).map (fun k => ram (BitVec.ofNat 12 k)) = values := by
    refine List.ext_getElem (by rw [List.length_map, List.length_range]) fun k _ inside => ?_
    rw [List.getElem_map, List.getElem_range]
    exact held k inside
  have front : ((List.range values.length).flatMap fun k => lanes 8 4 (ram (BitVec.ofNat 12 k))) =
      sent .little values := by
    refine (List.flatMap_map (fun k => ram (BitVec.ofNat 12 k)) (lanes 8 4) _).symm.trans ?_
    rw [words]
    rfl
  have length : (sent .little values).length = values.length * 4 := by
    rw [← front]
    exact length_flatMap_range (fun k => length_lanes _) _
  rw [ramBytes_readPort, total, List.range_add, List.flatMap_append, front,
    List.take_append_of_le_length (by rwa [length])]

end Ram

/-! ### Packets -/

/-- The packets that the host sends. A datagram fits into the count of bytes. -/
inductive Packet where
  | arpReply (srcMAC : BitVec 64) (srcIP : BitVec 32) (dstMAC : BitVec 64) (dstIP : BitVec 32)
  | udp (srcMAC : BitVec 64) (srcIP : BitVec 32) (srcPort : BitVec 16) (dstMAC : BitVec 64)
    (dstIP : BitVec 32) (dstPort : BitVec 16) (dataLen : BitVec 64)
    (fits : 48 + dataLen.toNat ≤ 65535)

namespace Packet

/-- The command words that a host of little-endian order builds. -/
def commands : Packet → List (BitVec 32)
  | arpReply srcMAC srcIP dstMAC dstIP => tgeCmdSendArpReply .little srcMAC srcIP dstMAC dstIP
  | udp srcMAC srcIP srcPort dstMAC dstIP dstPort dataLen _ =>
    tgeCmdSendUdp .little srcMAC srcIP srcPort dstMAC dstIP dstPort dataLen

/-- The bytes of the packet that the host builds. -/
def built : Packet → List (BitVec 8)
  | arpReply srcMAC srcIP dstMAC dstIP =>
    bytes16 .little (tgeBuildArpReply .little srcMAC srcIP dstMAC dstIP)
  | udp srcMAC srcIP srcPort dstMAC dstIP dstPort dataLen _ =>
    bytes16 .little (tgeBuildUdp .little srcMAC srcIP srcPort dstMAC dstIP dstPort dataLen)

/-- The bytes sent are the ARP reply as the host built it, or a datagram with the headers that the
host built, the packet counter behind them and its data. -/
def Intact (counter : BitVec 48) (frame : List (BitVec 8)) : Packet → Prop
  | arpReply srcMAC srcIP dstMAC dstIP =>
    frame.length = 42 ∧ frame = (arpReply srcMAC srcIP dstMAC dstIP).built
  | udp srcMAC srcIP srcPort dstMAC dstIP dstPort dataLen fits =>
    frame.length = 48 + dataLen.toNat ∧
      frame.take 42 =
        (udp srcMAC srcIP srcPort dstMAC dstIP dstPort dataLen fits).built.take 42 ∧
      (frame.drop 42).take 6 = lanes 8 6 counter

/-- The words written to the memory. -/
def words : Packet → List (BitVec 32)
  | arpReply srcMAC srcIP dstMAC dstIP =>
    words32 .little (tgeBuildArpReply .little srcMAC srcIP dstMAC dstIP ++ [0])
  | udp srcMAC srcIP srcPort dstMAC dstIP dstPort dataLen _ =>
    words32 .little (tgeBuildUdp .little srcMAC srcIP srcPort dstMAC dstIP dstPort dataLen)

/-- The number of bytes to send. -/
def nbytes : Packet → BitVec 32
  | arpReply _ _ _ _ => 42
  | udp _ _ _ _ _ _ dataLen _ => (48 + dataLen).setWidth 32

/-- The number of bytes, as a number. -/
def size : Packet → Nat
  | arpReply _ _ _ _ => 42
  | udp _ _ _ _ _ _ dataLen _ => 48 + dataLen.toNat

variable (packet : Packet)

theorem commands_eq : packet.commands = sendWords .little packet.words packet.nbytes := by
  cases packet <;> rfl

/-- The register holds the number of bytes. -/
theorem toNat_nbytes : (packet.nbytes.setWidth 16).toNat = packet.size := by
  cases packet with
  | arpReply => rfl
  | udp srcMAC srcIP srcPort dstMAC dstIP dstPort dataLen fits =>
    show (((48#64 + dataLen).setWidth 32).setWidth 16).toNat = 48 + dataLen.toNat
    rw [BitVec.toNat_setWidth, BitVec.toNat_setWidth, BitVec.toNat_add]
    show (48 + dataLen.toNat) % 2 ^ 64 % 2 ^ 32 % 2 ^ 16 = _
    omega

theorem length_words : packet.words.length = 11 ∨ packet.words.length = 12 := by
  cases packet with
  | arpReply => exact .inl rfl
  | udp => exact .inr rfl

theorem length_built (srcMAC : BitVec 64) (srcIP : BitVec 32) (dstMAC : BitVec 64)
    (dstIP : BitVec 32) : (arpReply srcMAC srcIP dstMAC dstIP).built.length = 42 :=
  length_bytes16 .little _

/-- The words begin with the bytes that the host built. -/
theorem take_words : (sent .little packet.words).take 42 = packet.built.take 42 := by
  cases packet with
  | arpReply srcMAC srcIP dstMAC dstIP =>
    have padded : bytes16 .little (tgeBuildArpReply .little srcMAC srcIP dstMAC dstIP ++ [0]) =
        bytes16 .little (tgeBuildArpReply .little srcMAC srcIP dstMAC dstIP) ++
          bytes16 .little [0] :=
      List.flatMap_append
    rw [words, sent_words32 _ _ ⟨11, rfl⟩, padded]
    exact List.take_append_of_le_length (length_built srcMAC srcIP dstMAC dstIP).ge
  | udp => rw [words, sent_words32 _ _ ⟨12, rfl⟩, built]

theorem size_ge : 42 ≤ packet.size := by
  cases packet with
  | arpReply => exact le_refl 42
  | udp => exact (Nat.le_add_right 48 _).trans' (by decide)

/-- What the generator sends of a RAM that begins with the words of the packet. -/
theorem intact {ram : BitVec 12 → BitVec 32}
    (held : ∀ k (inside : k < packet.words.length), ram (BitVec.ofNat 12 k) = packet.words[k])
    (counter : BitVec 48) :
    packet.Intact counter
      (onWire (frameBeats (readPort ram) (packet.nbytes.setWidth 16) counter)) := by
  have length := length_onWire (readPort ram) (packet.nbytes.setWidth 16) counter
  have enough := packet.size_ge
  have words := packet.length_words
  rw [toNat_nbytes] at length
  obtain ⟨later, split⟩ := onWire_split (readPort ram) (packet.nbytes.setWidth 16) counter
    (by rw [toNat_nbytes]; omega)
  have front : (ramBytes (readPort ram) 6).take 42 = packet.built.take 42 := by
    rw [← take_words]
    exact take_ramBytes ram packet.words held (by omega) (by omega)
  have whole : (packet.built.take 42).length = 42 := by
    rw [← front, List.length_take, ramBytes, length_flatMap_range fun k => length_lanes _]
    rfl
  rw [front, toNat_nbytes, List.append_assoc] at split
  generalize onWire _ = frame at *
  have header : frame.take 42 = packet.built.take 42 := by
    rw [split, List.take_take, Nat.min_eq_left enough, List.take_left' whole]
  cases packet with
  | arpReply srcMAC srcIP dstMAC dstIP =>
    have short : frame.length = 42 := length
    refine ⟨short, ?_⟩
    rwa [List.take_of_length_le short.le,
      List.take_of_length_le (length_built srcMAC srcIP dstMAC dstIP).le] at header
  | udp srcMAC srcIP srcPort dstMAC dstIP dstPort dataLen fits =>
    refine ⟨length, header, ?_⟩
    have room : 6 ≤ 48 + dataLen.toNat - 42 := by omega
    rw [split, List.drop_take, List.drop_left' whole, List.take_take, size, Nat.min_eq_left room]
    exact List.take_left' (length_lanes counter)

end Packet

/-- The words of a packet on the stream, eight bytes each, with `TLAST` at the last one and at no
other. -/
structure Transmitted (packet : Packet) (counter : BitVec 48) (beats : List TxBeat) : Prop where
  intact : packet.Intact counter (onWire beats)
  length : beats.length = (packet.size + 7) / 8
  last : ∀ k (inside : k < beats.length), beats[k].tlast = decide (k + 1 = beats.length)

/-! ### From the host to the stream -/

section Schedule

variable (earlier : List Call) (packet : Packet) (data : Nat → BitVec 32)
  (memory : BitVec 32 → BitVec 32) (ticks : Nat → Tick) (n : Nat)

/-- The command words that the FPGA takes: those of earlier calls and then those of the packet. -/
def commandWords : List (BitVec 32) :=
  fifo8to32 (callBytes .little earlier ++ sent .little packet.commands)

/-- The packet RAM before edge `n`. -/
def ramBefore (old : BitVec 12 → BitVec 32) : BitVec 12 → BitVec 32 :=
  packetRam old
    (log (System.clock (.ofList (commandWords earlier packet) data)) System.store (.powerOn memory)
      (upTo ticks n))

/-- `TX_BYTES`, which is `config_reg(15 DOWNTO 0)`, before edge `n`. -/
def txBytes : BitVec 16 :=
  part 16 (System.before (commandWords earlier packet) data memory ticks n).control.sConfigReg 0

/-- The calls that the command words come from. -/
def packetCalls : List Call := earlier ++ sendCalls packet.words packet.nbytes

theorem commandWords_eq :
    commandWords earlier packet = callWords .little (packetCalls earlier packet) := by
  rw [commandWords, packet.commands_eq, sent_sendWords, callWords, packetCalls]
  exact congrArg fifo8to32 List.flatMap_append.symm

end Schedule

/-- A sender leaves the number of bytes in register 0. -/
theorem config_sendCalls (device : Device) (words : List (BitVec 32)) (nbytes : BitVec 32) :
    (device.run (sendCalls words nbytes)).config 0 = nbytes.setWidth 16 := by
  have pulse (device : Device) (mask : BitVec 32) : device.perform (.sendPulse mask) = device := rfl
  have register (device : Device) (i : Fin 32) (val : BitVec 32) :
      (device.perform (.writeRegister i val)).config i = val.setWidth 16 :=
    Function.update_self _ _ _
  unfold Device.run sendCalls
  rw [List.foldl_cons, List.foldl_cons, List.foldl_cons, List.foldl_nil, pulse]
  exact register _ _ nbytes

section Settled

variable {earlier : List Call} {packet : Packet} {data : Nat → BitVec 32}
  {memory : BitVec 32 → BitVec 32} {ticks : Nat → Tick} {n : Nat}
  (settled : Settled .little (packetCalls earlier packet) data memory ticks n)

include settled

theorem txBytes_of_settled :
    txBytes earlier packet data memory ticks n = packet.nbytes.setWidth 16 := by
  have register := settled.config 0
  rw [← commandWords_eq, packetCalls, Device.run_append] at register
  exact register.trans (config_sendCalls _ packet.words packet.nbytes)

theorem ramBefore_of_settled (old : BitVec 12 → BitVec 32) (k : Nat)
    (inside : k < packet.words.length) :
    ramBefore earlier packet data memory ticks n old (BitVec.ofNat 12 k) = packet.words[k] := by
  have few : packet.words.length ≤ 12 := by
    rcases packet.length_words with length | length <;> omega
  have nonempty : packet.words ≠ [] := List.ne_nil_of_length_pos (Nat.zero_lt_of_lt inside)
  have writes : (packetCalls earlier packet).flatMap Call.stores =
      earlier.flatMap Call.stores ++ storesFrom (BitVec.ofNat 32 0) packet.words := by
    have block : packet.words.headD 0 :: packet.words.tail = packet.words := by
      cases words : packet.words with
      | nil => exact absurd words nonempty
      | cons => rfl
    rw [packetCalls, List.flatMap_append, sendCalls, List.flatMap_cons, Call.stores, block]
    exact congrArg (_ ++ ·) (List.append_nil _)
  have stores := settled.stores
  rw [← commandWords_eq] at stores
  rw [ramBefore, stores, writes, packetRam_append]
  have value := packetRam_value (packetRam old (earlier.flatMap Call.stores)) packet.words 0
    (by omega) inside
  rwa [Nat.zero_add] at value

end Settled

/-- Whatever calls come before, once the command words of a packet are executed, a start of the
packet generator at rest sends the packet and nothing else: one word at every clock at which the
receiver is ready, whenever these are. -/
theorem packet_on_wire (packet : Packet) (earlier : List Call) (data : Nat → BitVec 32)
    (memory : BitVec 32 → BitVec 32) (ticks : Nat → Tick)
    (serves : Serves ticks (commandWords earlier packet).length 0) (old : BitVec 12 → BitVec 32) :
    ∃ n, ∀ m, n ≤ m → ∀ state : PacketGen, state.pktState = .s0 →
      ∃ beats, Transmitted packet state.pktCtr beats ∧
        ∀ (start : GenInput) (inputs : List GenInput), start.txStart = true →
          start.txBytes = txBytes earlier packet data memory ticks m →
          (∀ input ∈ inputs, input.txStart = false) →
          log (PacketGen.clock (readPort (ramBefore earlier packet data memory ticks m old)))
              PacketGen.transferred state (start :: inputs) =
            beats.take (inputs.countP GenInput.txAxisTready) := by
  rw [commandWords_eq] at serves
  obtain ⟨n, settled⟩ := exists_settled data memory serves
  refine ⟨n, fun m later state atRest => ?_⟩
  have bytes := txBytes_of_settled (settled m later)
  have held := ramBefore_of_settled (settled m later) old
  refine ⟨_, ⟨packet.intact held state.pktCtr, ?_, frameBeats_last _ _ _⟩, ?_⟩
  · rw [length_frameBeats, beatCount, packet.toNat_nbytes]
  intro start inputs started length quiet
  have long : 14 ≤ start.txBytes.toNat := by
    rw [length, bytes, packet.toNat_nbytes]
    exact packet.size_ge.trans' (by decide)
  rw [log_start _ atRest started long quiet, length, bytes]

/-- An ARP reply. -/
def answer : Packet := .arpReply 0x020000000001 0xc0a80003 0x001122334455 0xc0a80005

/-- The receiver is ready at six clocks, with stalls between them. -/
def stalling : List GenInput :=
  [true, false, true, true, false, false, true, true, true].map fun ready => ⟨false, 0, ready⟩

theorem packet_on_wire_sample :
    ∃ n, onWire (log
        (PacketGen.clock
          (readPort (ramBefore [] answer (fun _ => 0) 0 (System.atOnce 26 0) n 0)))
        PacketGen.transferred .idle
        (⟨true, txBytes [] answer (fun _ => 0) 0 (System.atOnce 26 0) n, false⟩ :: stalling)) =
      answer.built := by
  have length : (commandWords [] answer).length = 26 := by decide +kernel
  obtain ⟨n, sends⟩ := packet_on_wire answer [] (fun _ => 0) 0 (System.atOnce 26 0)
    (length.symm ▸ System.atOnce_serves 26 0) 0
  obtain ⟨beats, transmitted, sent⟩ := sends n le_rfl .idle rfl
  have all : beats.take (stalling.countP GenInput.txAxisTready) = beats :=
    List.take_of_length_le transmitted.length.le
  refine ⟨n, ?_⟩
  rw [sent _ stalling rfl rfl (by decide), all]
  exact transmitted.intact.2

end K71GbE.TenGigEth
