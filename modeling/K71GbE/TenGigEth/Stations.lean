/-
This file follows the packets of one station to the command FIFO of another one.

A station sends what its host has loaded into the packet RAM, once for every
start. Between the two lies Ethernet: the bytes of a frame arrive in their order,
with padding behind them, and each frame apart. The receiving station raises a
command for every datagram to its own addresses and port, with the packet counter
of the sender in it, so that a lost frame shows.
-/

import K71GbE.Clocked.Frames
import K71GbE.Host.UdpHeader
import K71GbE.TenGigEth.Framing
import K71GbE.TenGigEth.RxDelivery
import K71GbE.TenGigEth.Transmit
import Mathlib.Data.List.GetD

namespace K71GbE.TenGigEth

open Clocked Control Host

/-! ### The bytes of a frame -/

/-- The bytes of the words, lane 0 first. -/
def frameBytes (frame : List (BitVec 64)) : List (BitVec 8) := frame.flatMap (lanes 8 8)

theorem byte_eq (frame : List (BitVec 64)) (i : Nat) :
    byte frame i = (frameBytes frame).getD i 0 := by
  induction frame generalizing i with
  | nil =>
    rw [byte, List.getD_nil]
    exact BitVec.extractLsb'_zero
  | cons word rest inductionHypothesis =>
    have split : frameBytes (word :: rest) = lanes 8 8 word ++ frameBytes rest :=
      List.flatMap_cons
    rw [split]
    by_cases first : i < 8
    · have inside : i < (lanes 8 8 word).length := by rwa [length_lanes]
      rw [List.getD_append _ _ _ _ inside, List.getD_eq_getElem _ _ inside, getElem_lanes, byte,
        Nat.div_eq_of_lt first, Nat.mod_eq_of_lt first]
      rfl
    · obtain ⟨later, rfl⟩ := Nat.exists_eq_add_of_le (Nat.le_of_not_lt first)
      rw [List.getD_append_right _ _ _ _ (by rw [length_lanes]; omega), length_lanes,
        Nat.add_sub_cancel_left, ← inductionHypothesis, byte, byte, Nat.add_mod_left,
        Nat.add_div_left _ (by decide)]
      rfl

theorem getD_bigEndian16 {bytes : List (BitVec 8)} {j : Nat} (inside : 2 * j + 1 < bytes.length) :
    (bigEndian16 bytes).getD j 0 = bytes.getD (2 * j) 0 ++ bytes.getD (2 * j + 1) 0 := by
  induction j generalizing bytes with
  | zero =>
    match bytes with
    | high :: low :: rest => rfl
    | [] | [_] => simp at inside
  | succ j inductionHypothesis =>
    match bytes with
    | high :: low :: rest =>
      simp only [List.length_cons] at inside
      have later := inductionHypothesis (show 2 * j + 1 < rest.length by omega)
      exact later
    | [] | [_] => simp at inside

/-- A byte of a frame that begins with the given bytes. -/
theorem byte_of_front {front : List (BitVec 8)} {frame : List (BitVec 64)}
    (begins : front <+: frameBytes frame) {i : Nat} (inside : i < front.length) :
    byte frame i = front[i] := by
  obtain ⟨padding, whole⟩ := begins
  rw [byte_eq, ← whole, List.getD_append _ _ _ _ inside, List.getD_eq_getElem _ _ inside]

/-- A field of a frame that begins with the given bytes. -/
theorem field16_of_front {front : List (BitVec 8)} {frame : List (BitVec 64)}
    (begins : front <+: frameBytes frame) {j : Nat} (inside : 2 * j + 1 < front.length) :
    field16 frame (2 * j) = (bigEndian16 front).getD j 0 := by
  rw [getD_bigEndian16 inside, field16, byte_of_front begins (Nat.lt_of_succ_lt inside),
    byte_of_front begins inside, List.getD_eq_getElem _ _ (Nat.lt_of_succ_lt inside),
    List.getD_eq_getElem _ _ inside]

theorem take_bigEndian16 (bytes : List (BitVec 8)) (n : Nat) :
    bigEndian16 (bytes.take (2 * n)) = (bigEndian16 bytes).take n := by
  induction n generalizing bytes with
  | zero => rfl
  | succ n inductionHypothesis =>
    match bytes with
    | high :: low :: rest => exact congrArg _ (inductionHypothesis rest)
    | [] | [_] => rfl

/-- The first 21 words that the host builds, before they are brought into network order. -/
def Packet.header : Packet → List (BitVec 16)
  | .arpReply srcMAC srcIP dstMAC dstIP =>
    [word16 dstMAC 4, word16 dstMAC 2, word16 dstMAC 0,
      word16 srcMAC 4, word16 srcMAC 2, word16 srcMAC 0,
      0x0806, 0x0001, 0x0800, 0x0604, 0x0002,
      word16 srcMAC 4, word16 srcMAC 2, word16 srcMAC 0,
      word16 srcIP 2, word16 srcIP 0,
      word16 dstMAC 4, word16 dstMAC 2, word16 dstMAC 0,
      word16 dstIP 2, word16 dstIP 0]
  | .udp srcMAC srcIP srcPort dstMAC dstIP dstPort dataLen _ =>
    ((udpWords srcMAC srcIP srcPort dstMAC dstIP dstPort dataLen).set 12
      (~~~BitVec.ofNat 16 (fold 16 (headerSum srcIP dstIP dataLen)))).take 21

theorem Packet.bigEndian16_built (packet : Packet) :
    bigEndian16 (packet.built.take 42) = packet.header := by
  rw [show 42 = 2 * 21 from rfl, take_bigEndian16]
  cases packet with
  | arpReply srcMAC srcIP dstMAC dstIP => rw [built, tgeBuildArpReply, bigEndian16_bytes16]; rfl
  | udp srcMAC srcIP srcPort dstMAC dstIP dstPort dataLen fits =>
    rw [built, tgeBuildUdp_eq _ _ _ _ _ _ _ _ (by omega), bigEndian16_bytes16]
    rfl

/-! ### What a packet raises -/

/-- The command that a station raises for a packet which carries this packet counter. -/
def Packet.raises (config : Config) (counter : BitVec 48) : Packet → Option (BitVec 128)
  | .arpReply .. => none
  | .udp srcMAC srcIP srcPort dstMAC dstIP dstPort _ _ =>
    if dstMAC.setWidth 48 = config.srcMac ∧ dstIP = config.srcIp ∧ dstPort = config.srcPort then
      some (srcMAC.setWidth 48 ++ srcIP ++ srcPort ++ counter.setWidth 32)
    else none

theorem word16_eq {w : Nat} (wide : 16 ≤ w) (x : BitVec w) (i : Nat) :
    word16 x i = x.extractLsb' (i * 8) 16 := by
  refine BitVec.eq_of_toNat_eq ?_
  rw [word16, toNat_low16 wide, BitVec.toNat_ushiftRight, BitVec.extractLsb'_toNat]

/-- Three words of an address. -/
theorem append_word16_mac (mac : BitVec 64) :
    word16 mac 4 ++ (word16 mac 2 ++ word16 mac 0) = mac.setWidth 48 := by
  rw [word16_eq (by decide), word16_eq (by decide), word16_eq (by decide)]
  ext bit small
  simp only [BitVec.getElem_append, BitVec.getElem_extractLsb', BitVec.getElem_setWidth]
  split_ifs <;> congr 1 <;> omega

/-- Two words of an address. -/
theorem append_word16_ip (ip : BitVec 32) : word16 ip 2 ++ word16 ip 0 = ip := by
  rw [word16_eq (by decide), word16_eq (by decide)]
  refine BitVec.eq_of_getLsbD_eq fun bit small => ?_
  rw [BitVec.getLsbD_append, BitVec.getLsbD_extractLsb', BitVec.getLsbD_extractLsb']
  split_ifs <;> rw [decide_eq_true (by omega), Bool.true_and] <;> congr 1 <;> omega

/-- Four lanes of the packet counter. -/
theorem append_lanes (counter : BitVec 48) :
    part 8 counter 3 ++ part 8 counter 2 ++ part 8 counter 1 ++ part 8 counter 0 =
      counter.setWidth 32 := by
  ext bit small
  simp only [BitVec.getElem_append, part, BitVec.getElem_extractLsb', BitVec.getElem_setWidth]
  split_ifs <;> congr 1 <;> omega

theorem Packet.Intact.front {packet : Packet} {counter : BitVec 48} {bytes : List (BitVec 8)}
    (intact : packet.Intact counter bytes) :
    bytes.take 42 = packet.built.take 42 ∧ 42 ≤ bytes.length := by
  cases packet with
  | arpReply srcMAC srcIP dstMAC dstIP => exact ⟨congrArg (List.take 42) intact.2, intact.1.ge⟩
  | udp srcMAC srcIP srcPort dstMAC dstIP dstPort dataLen fits =>
    have length := intact.1
    exact ⟨intact.2.1, by omega⟩

section Arrival

variable {packet : Packet} {counter : BitVec 48} {bytes : List (BitVec 8)}
  {frame : List (BitVec 64)}

/-- The fields of a frame that arrives are the words of the header. -/
theorem field16_of_intact (intact : packet.Intact counter bytes)
    (begins : bytes <+: frameBytes frame) {j : Nat} (inside : j < 21) :
    field16 frame (2 * j) = packet.header.getD j 0 := by
  obtain ⟨front, long⟩ := intact.front
  have length : (bytes.take 42).length = 42 := by rw [List.length_take, Nat.min_eq_left long]
  rw [← packet.bigEndian16_built, ← front]
  exact field16_of_front ((List.take_prefix 42 bytes).trans begins) (by omega)

/-- An ARP reply is not accepted. -/
theorem not_accepted_of_arpReply {srcMAC : BitVec 64} {srcIP : BitVec 32} {dstMAC : BitVec 64}
    {dstIP : BitVec 32} (config : Config)
    (intact : (Packet.arpReply srcMAC srcIP dstMAC dstIP).Intact counter bytes)
    (begins : bytes <+: frameBytes frame) : ¬Accepted config frame := by
  have pktType : field16 frame 12 = 0x0806 := field16_of_intact intact begins (j := 6) (by decide)
  have opcode : field16 frame 20 = 0x0002 := field16_of_intact intact begins (j := 10) (by decide)
  rintro (request | datagram)
  · exact absurd (opcode.symm.trans request.2.1) (by decide)
  · exact absurd (pktType.symm.trans datagram.2.1) (by decide)

section Datagram

variable {srcMAC : BitVec 64} {srcIP : BitVec 32} {srcPort : BitVec 16} {dstMAC : BitVec 64}
  {dstIP : BitVec 32} {dstPort : BitVec 16} {dataLen : BitVec 64}
  {fits : 48 + dataLen.toNat ≤ 65535}

/-- A datagram is accepted by the station that it is addressed to. -/
theorem accepted_udp_iff (config : Config)
    (intact : (Packet.udp srcMAC srcIP srcPort dstMAC dstIP dstPort dataLen fits).Intact counter
      bytes) (begins : bytes <+: frameBytes frame) :
    (Accepted config frame ↔ UdpDatagram config frame) ∧
      (UdpDatagram config frame ↔
        dstMAC.setWidth 48 = config.srcMac ∧ dstIP = config.srcIp ∧ dstPort = config.srcPort) := by
  have word {j : Nat} (inside : j < 21) := field16_of_intact intact begins inside
  have pktType : field16 frame 12 = 0x0800 := word (j := 6) (by decide)
  have ttl : field16 frame 22 = 0x4011 := word (j := 11) (by decide)
  have protocol : byte frame 23 = 0x11 := by
    have low := congrArg (BitVec.extractLsb' 0 8) ttl
    rwa [field16, BitVec.extractLsb'_append_eq_of_add_le (by decide), BitVec.extractLsb'_eq_self]
      at low
  have mac : field48 frame 0 = dstMAC.setWidth 48 := by
    rw [← append_word16_mac, field48, field32, word (j := 0) (by decide),
      word (j := 1) (by decide), word (j := 2) (by decide)]
    rfl
  have ip : field32 frame 30 = dstIP := by
    rw [← append_word16_ip dstIP, field32, word (j := 15) (by decide), word (j := 16) (by decide)]
    rfl
  have port : field16 frame 36 = dstPort := by
    rw [word (j := 18) (by decide)]
    exact BitVec.and_allOnes
  have other : ¬ArpRequest config frame := fun request =>
    absurd (pktType.symm.trans request.1) (by decide)
  refine ⟨or_iff_right other, ?_⟩
  rw [UdpDatagram, mac, ip, port, pktType, protocol]
  simp

/-- The parts of a command word put together. -/
theorem append_command (cmd : BitVec 128) :
    cmd.extractLsb' 80 48 ++ cmd.extractLsb' 48 32 ++ cmd.extractLsb' 32 16 ++
      cmd.extractLsb' 0 32 = cmd := by
  refine BitVec.eq_of_getLsbD_eq fun bit small => ?_
  simp only [BitVec.getLsbD_append, BitVec.getLsbD_extractLsb']
  split_ifs <;> rw [decide_eq_true (by omega), Bool.true_and] <;> congr 1 <;> omega

/-- The payload of a datagram begins with the packet counter. -/
theorem payload32_of_intact
    (intact : (Packet.udp srcMAC srcIP srcPort dstMAC dstIP dstPort dataLen fits).Intact counter
      bytes) (begins : bytes <+: frameBytes frame) :
    payload32 frame 42 = counter.setWidth 32 := by
  obtain ⟨length, _, counted⟩ := intact
  have lane (i : Nat) (inside : i < 6) : byte frame (42 + i) = part 8 counter i := by
    rw [byte_of_front begins (show 42 + i < bytes.length by omega)]
    have found : ((bytes.drop 42).take 6)[i]? = some (part 8 counter i) := by
      rw [counted, List.getElem?_eq_getElem (by rwa [length_lanes]), getElem_lanes]
    rw [List.getElem?_take_of_lt inside, List.getElem?_drop] at found
    exact (List.getElem?_eq_some_iff.mp found).2
  rw [← append_lanes, payload32, lane 3 (by decide), lane 2 (by decide), lane 1 (by decide)]
  exact congrArg (part 8 counter 3 ++ part 8 counter 2 ++ part 8 counter 1 ++ ·)
    (lane 0 (by decide))

/-- The command of a datagram names its sender and carries the packet counter. -/
theorem eq_of_carries {config : Config} {cmd : BitVec 128}
    (intact : (Packet.udp srcMAC srcIP srcPort dstMAC dstIP dstPort dataLen fits).Intact counter
      bytes) (begins : bytes <+: frameBytes frame) (carries : Carries config cmd frame)
    (datagram : UdpDatagram config frame) :
    cmd = srcMAC.setWidth 48 ++ srcIP ++ srcPort ++ counter.setWidth 32 := by
  have word {j : Nat} (inside : j < 21) := field16_of_intact intact begins inside
  have mac : field48 frame 6 = srcMAC.setWidth 48 := by
    rw [← append_word16_mac, field48, field32, word (j := 3) (by decide),
      word (j := 4) (by decide), word (j := 5) (by decide)]
    rfl
  have ip : field32 frame 26 = srcIP := by
    rw [← append_word16_ip srcIP, field32, word (j := 13) (by decide), word (j := 14) (by decide)]
    rfl
  have port : field16 frame 34 = srcPort := by
    rw [word (j := 17) (by decide)]
    exact BitVec.and_allOnes
  obtain ⟨ipCarried, portCarried, wordCarried⟩ := carries.udp datagram
  rw [← append_command cmd, carries.srcMac, ipCarried, portCarried, wordCarried, mac, ip, port,
    payload32_of_intact intact begins]

end Datagram

/-- A frame that arrives raises the command of its packet, and the parser waits for the next. -/
theorem run_beats_of_intact (config : Config) (fields : Fields)
    (intact : packet.Intact counter bytes) (begins : bytes <+: frameBytes frame)
    (enough : 7 ≤ frame.length) :
    ∃ after, run takeBeat (.s0, fields) (TenGigEth.beats frame) = (.s0, after) ∧
      log takeBeat (beatCommand config) (.s0, fields) (TenGigEth.beats frame) =
        (packet.raises config counter).toList := by
  obtain ⟨after, moved, carried⟩ := run_beats config fields enough
  refine ⟨after, moved, ?_⟩
  cases packet with
  | arpReply =>
    rw [if_neg (not_accepted_of_arpReply config intact begins)] at carried
    exact List.forall₂_nil_right_iff.mp carried
  | udp srcMAC srcIP srcPort dstMAC dstIP dstPort dataLen fits =>
    obtain ⟨datagram, addressed⟩ := accepted_udp_iff config intact begins
    rw [Packet.raises]
    split_ifs with own
    · rw [if_pos (datagram.mpr (addressed.mpr own))] at carried
      generalize log _ _ _ _ = commands at carried ⊢
      cases carried with
      | cons carries rest =>
        rw [List.forall₂_nil_right_iff.mp rest,
          eq_of_carries intact begins carries (addressed.mpr own)]
        rfl
    · rw [if_neg fun accepted => own (addressed.mp (datagram.mp accepted))] at carried
      exact List.forall₂_nil_right_iff.mp carried

end Arrival

/-! ### Many starts -/

/-- A start, the clocks in which the receiver of the stream takes the whole frame, and one more. -/
def CompleteShot (bytes : BitVec 16) (shot : List GenInput) : Prop :=
  ∃ start inputs last, shot = start :: (inputs ++ [last]) ∧ start.txStart = true ∧
    start.txBytes = bytes ∧ (∀ input ∈ inputs ++ [last], input.txStart = false) ∧
    beatCount bytes ≤ inputs.countP GenInput.txAxisTready

section Shots

variable {bytes : BitVec 16} {state : PacketGen}

/-- A shot sends one frame and counts it. -/
theorem CompleteShot.sends {shot : List GenInput} (complete : CompleteShot bytes shot)
    (ram : BitVec 11 → BitVec 64) (atRest : state.pktState = .s0) (long : 14 ≤ bytes.toNat) :
    log (PacketGen.clock ram) PacketGen.transferred state shot =
        frameBeats ram bytes state.pktCtr ∧
      (run (PacketGen.clock ram) state shot).pktState = .s0 ∧
      (run (PacketGen.clock ram) state shot).pktCtr = state.pktCtr + 1 := by
  obtain ⟨start, inputs, last, rfl, started, rfl, quiet, enough⟩ := complete
  have quietLast := quiet last (List.mem_append_right _ List.mem_cons_self)
  refine ⟨?_, ?_⟩
  · rw [log_start ram atRest started long quiet, List.take_of_length_le]
    rw [length_frameBeats, List.countP_append]
    exact enough.trans (Nat.le_add_right _ _)
  · have sent := (sending_of_start ram atRest started long).run
      fun input member => quiet input (List.mem_append_left _ member)
    rw [run_cons, run_concat]
    rcases sent with sending | ⟨_, taken⟩
    · have within := sending.within
      omega
    · exact taken.clock ram quietLast

/-- Every shot sends its frame, with the packet counter one higher each time. -/
theorem log_shots (ram : BitVec 11 → BitVec 64) (atRest : state.pktState = .s0)
    (long : 14 ≤ bytes.toNat) {shots : List (List GenInput)}
    (complete : ∀ shot ∈ shots, CompleteShot bytes shot) :
    log (PacketGen.clock ram) PacketGen.transferred state shots.flatten =
      ((List.range shots.length).map fun i =>
        frameBeats ram bytes (state.pktCtr + BitVec.ofNat 48 i)).flatten := by
  induction shots generalizing state with
  | nil => rfl
  | cons shot rest inductionHypothesis =>
    obtain ⟨first, later⟩ := List.forall_mem_cons.mp complete
    obtain ⟨sent, atRest', counted⟩ := first.sends ram atRest long
    have next (i : Nat) : (1 : BitVec 48) + BitVec.ofNat 48 i = BitVec.ofNat 48 (i + 1) := by
      rw [Nat.add_comm, BitVec.ofNat_add]
      rfl
    rw [List.flatten_cons, log_append, sent, inductionHypothesis atRest' later, counted,
      List.length_cons, List.range_succ_eq_map, List.map_cons, List.map_map, List.flatten_cons]
    refine congrArg₂ (· ++ ·) ?_ (congrArg List.flatten (List.map_congr_left fun i _ => ?_))
    · exact congrArg (frameBeats ram bytes) (BitVec.add_zero _).symm
    · rw [BitVec.add_assoc, next]
      rfl

/-- `TLAST` cuts the stream into the frames. -/
theorem framesOf_shots (ram : BitVec 11 → BitVec 64) (atRest : state.pktState = .s0)
    (long : 14 ≤ bytes.toNat) {shots : List (List GenInput)}
    (complete : ∀ shot ∈ shots, CompleteShot bytes shot) :
    framesOf TxBeat.tlast
        (log (PacketGen.clock ram) PacketGen.transferred state shots.flatten) =
      (List.range shots.length).map fun i =>
        frameBeats ram bytes (state.pktCtr + BitVec.ofNat 48 i) := by
  rw [log_shots ram atRest long complete]
  refine framesOf_flatten fun frame member => ?_
  obtain ⟨i, _, rfl⟩ := List.mem_map.mp member
  refine isFrame_of_getElem (List.ne_nil_of_length_pos ?_) (frameBeats_last ram bytes _)
  rw [length_frameBeats, beatCount]
  omega

end Shots

/-! ### From one station to the other -/

/-- The bytes of a frame arrive, with padding behind them. -/
def Arrives (bytes : List (BitVec 8)) (frame : List (BitVec 64)) : Prop :=
  bytes <+: frameBytes frame ∧ 7 ≤ frame.length

/-- A network that delivers frames of `sent`, those of `indices` and in this order: it may lose,
repeat and reorder them. -/
def Delivers (sent : List (List TxBeat)) (indices : List Nat) (frames : List (List (BitVec 64))) :
    Prop :=
  List.Forall₂ (fun i frame => ∃ beats, sent[i]? = some beats ∧ Arrives (onWire beats) frame)
    indices frames

/-- What a parser raises for the frames that arrive. -/
theorem log_delivers (config : Config) {packet : Packet} {counter : Nat → BitVec 48}
    {sent : List (List TxBeat)}
    (intact : ∀ i beats, sent[i]? = some beats → packet.Intact (counter i) (onWire beats))
    (fields : Fields) {indices : List Nat} {frames : List (List (BitVec 64))}
    (delivers : Delivers sent indices frames) :
    log takeBeat (beatCommand config) (.s0, fields) (frames.flatMap beats) =
      indices.filterMap fun i => packet.raises config (counter i) := by
  induction delivers generalizing fields with
  | nil => rfl
  | @cons i frame indices frames arrives rest inductionHypothesis =>
    obtain ⟨beats, found, begins, enough⟩ := arrives
    obtain ⟨after, moved, logged⟩ :=
      run_beats_of_intact config fields (intact i beats found) begins enough
    rw [List.flatMap_cons, log_append, moved, logged, inductionHypothesis after,
      List.filterMap_cons]
    cases packet.raises config (counter i) <;> rfl

/-- The low half of the packet counter tells which of at most 2^32 frames a command is for. -/
theorem index_of_raises {config : Config} {packet : Packet} {start : BitVec 48} {i : Nat}
    {cmd : BitVec 128} (raised : packet.raises config (start + BitVec.ofNat 48 i) = some cmd)
    (small : i < 2 ^ 32) :
    (cmd.extractLsb' 0 32 - start.setWidth 32).toNat = i := by
  cases packet with
  | arpReply => cases raised
  | udp srcMAC srcIP srcPort dstMAC dstIP dstPort dataLen fits =>
    rw [Packet.raises] at raised
    split_ifs at raised
    obtain rfl := Option.some.inj raised
    obtain ⟨_, _, _, word⟩ := extract_command (srcMAC.setWidth 48) srcIP srcPort
      ((start + BitVec.ofNat 48 i).setWidth 32)
    rw [word, BitVec.setWidth_add _ _ (by decide), BitVec.setWidth_ofNat_of_le (by decide),
      BitVec.add_comm, BitVec.add_sub_cancel, BitVec.toNat_ofNat, Nat.mod_eq_of_lt small]

/-- Whether a packet raises a command does not depend on the packet counter. -/
theorem raises_isSome (config : Config) (packet : Packet) (counter counter' : BitVec 48) :
    (packet.raises config counter).isSome = (packet.raises config counter').isSome := by
  cases packet with
  | arpReply => rfl
  | udp =>
    rw [Packet.raises, Packet.raises]
    split_ifs <;> rfl

/-- The commands of a packet for the receiving station tell the frames that have arrived. -/
theorem map_index_raises {config : Config} {packet : Packet} (start : BitVec 48)
    (addressed : (packet.raises config 0).isSome) {indices : List Nat}
    (small : ∀ i ∈ indices, i < 2 ^ 32) :
    (indices.filterMap fun i => packet.raises config (start + BitVec.ofNat 48 i)).map
        (fun cmd => (cmd.extractLsb' 0 32 - start.setWidth 32).toNat) = indices := by
  induction indices with
  | nil => rfl
  | cons i rest inductionHypothesis =>
    obtain ⟨first, later⟩ := List.forall_mem_cons.mp small
    obtain ⟨cmd, raised⟩ := Option.isSome_iff_exists.mp
      ((raises_isSome config packet (start + BitVec.ofNat 48 i) 0).trans addressed)
    have head : (i :: rest).filterMap
        (fun i => packet.raises config (start + BitVec.ofNat 48 i)) =
        cmd :: rest.filterMap (fun i => packet.raises config (start + BitVec.ofNat 48 i)) :=
      List.filterMap_cons_some raised
    rw [head, List.map_cons, inductionHypothesis later, index_of_raises raised first]

/-- A host loads a packet and starts it any number of times; a network delivers frames of these as
it likes; the other station reads them in an orderly way. What it raises is, for every frame that
arrives, the command that names the sender and carries the packet counter of this frame, if the
packet is a datagram to this station, and nothing otherwise. As long as the low half of the counter
does not come round, the commands tell which frames have arrived, and in which order. -/
theorem station_to_station (config : Config) (packet : Packet) (earlier : List Call)
    (data : Nat → BitVec 32) (memory : BitVec 32 → BitVec 32) (ticks : Nat → Tick)
    (serves : Serves ticks (commandWords earlier packet).length 0) (old : BitVec 12 → BitVec 32) :
    ∃ n, ∀ m, n ≤ m → ∀ state : PacketGen, state.pktState = .s0 →
      ∀ shots : List (List GenInput),
        (∀ shot ∈ shots, CompleteShot (txBytes earlier packet data memory ticks m) shot) →
      ∀ indices frames,
        Delivers
          (framesOf TxBeat.tlast
            (log (PacketGen.clock (readPort (ramBefore earlier packet data memory ticks m old)))
              PacketGen.transferred state shots.flatten))
          indices frames →
      ∀ (rx : RxParser) (inputs : List RxInput),
        Along (RxParser.clock config) (Orderly config) rx.reset inputs → Ended inputs →
        inputs.flatMap RxInput.transferred = frames.flatMap beats →
        let commands := log (RxParser.clock config) (RxParser.pushed config) rx.reset inputs
        commands =
            indices.filterMap
              (fun i => packet.raises config (state.pktCtr + BitVec.ofNat 48 i)) ∧
          ((packet.raises config 0).isSome → shots.length ≤ 2 ^ 32 →
            commands.map (fun cmd => (cmd.extractLsb' 0 32 - state.pktCtr.setWidth 32).toNat) =
              indices) := by
  rw [commandWords_eq] at serves
  obtain ⟨n, settled⟩ := exists_settled data memory serves
  refine ⟨n, fun m later state atRest shots complete indices frames delivers rx inputs orderly
    ended transferred => ?_⟩
  have bytes := txBytes_of_settled (settled m later)
  have held := ramBefore_of_settled (settled m later) old
  have long : 14 ≤ (packet.nbytes.setWidth 16).toNat := by
    rw [packet.toNat_nbytes]
    exact packet.size_ge.trans' (by decide)
  rw [bytes] at complete
  rw [framesOf_shots _ atRest long complete] at delivers
  have inside : ∀ i ∈ indices, i < shots.length := by
    intro i member
    obtain ⟨k, bound, rfl⟩ := List.mem_iff_getElem.mp member
    obtain ⟨_, found, _⟩ := List.Forall₂.get delivers bound
      (delivers.length_eq ▸ bound)
    have within := (List.getElem?_eq_some_iff.mp found).1
    rwa [List.length_map, List.length_range] at within
  intro commands
  have raised : commands =
      indices.filterMap fun i => packet.raises config (state.pktCtr + BitVec.ofNat 48 i) := by
    show log (RxParser.clock config) (RxParser.pushed config) rx.reset inputs = _
    rw [pushed_of_beats config rx orderly ended, transferred]
    refine log_delivers config (fun i beats found => ?_) .zero delivers
    obtain ⟨k, _, rfl⟩ := List.mem_map.mp (List.mem_of_getElem? found)
    obtain ⟨within, value⟩ := List.getElem?_eq_some_iff.mp found
    rw [← value, List.getElem_map, List.getElem_range]
    exact packet.intact held _
  refine ⟨raised, fun addressed few => ?_⟩
  rw [raised]
  exact map_index_raises _ addressed fun i member => (inside i member).trans_le few

/-! ### Two frames -/

/-- A frame of at least 49 bytes arrives as its own words. -/
theorem arrives_frameBeats (ram : BitVec 11 → BitVec 64) {bytes : BitVec 16} (counter : BitVec 48)
    (long : 49 ≤ bytes.toNat) :
    Arrives (onWire (frameBeats ram bytes counter))
      ((List.range (beatCount bytes)).map (frameWord ram counter)) := by
  constructor
  · rw [onWire_frameBeats, frameBytes, List.flatMap_map]
    exact List.take_prefix _ _
  · rw [List.length_map, List.length_range, beatCount]
    omega

/-- A datagram of 64 bytes for `station`. -/
def greeting : Packet :=
  .udp 0x020000000002 0x0a000002 0x1234 0x020000000001 0x0a000001 0x5678 16 (by decide)

/-- The RAM of a station that has loaded it, and its number of bytes. -/
def greetingRam (m : Nat) : BitVec 11 → BitVec 64 :=
  readPort (ramBefore [] greeting (fun _ => 0) 0 (System.atOnce 28 0) m 0)

def greetingBytes (m : Nat) : BitVec 16 :=
  txBytes [] greeting (fun _ => 0) 0 (System.atOnce 28 0) m

/-- A start and nine clocks in which the receiver of the stream is ready. -/
def readyShot (bytes : BitVec 16) : List GenInput :=
  ⟨true, bytes, false⟩ :: (List.replicate 8 ⟨false, 0, true⟩ ++ [⟨false, 0, true⟩])

/-- The frame as it arrives. -/
def greetingFrame (m : Nat) (counter : BitVec 48) : Delivery :=
  spaced ((List.range 8).map (frameWord (greetingRam m) counter))
    (by rw [List.length_map, List.length_range])

/-- Two frames that arrive in the other order. -/
theorem station_to_station_exchanged :
    ∃ m,
      Delivers
        (framesOf TxBeat.tlast
          (log (PacketGen.clock (greetingRam m)) PacketGen.transferred .idle
            (List.replicate 2 (readyShot (greetingBytes m))).flatten))
        [1, 0] [(greetingFrame m 1).frame, (greetingFrame m 0).frame] ∧
      log (RxParser.clock station) (RxParser.pushed station) RxParser.idle.reset
          (delivered [greetingFrame m 1, greetingFrame m 0] [0, 0]) =
        [0x0200000000020a000002123400000001, 0x0200000000020a000002123400000000] := by
  have length : (commandWords [] greeting).length = 28 := by decide +kernel
  have serves : Serves (System.atOnce 28 0) (commandWords [] greeting).length 0 :=
    length.symm ▸ System.atOnce_serves 28 0
  obtain ⟨n, raises⟩ := station_to_station station greeting [] (fun _ => 0) 0 (System.atOnce 28 0)
    serves 0
  obtain ⟨n', settled⟩ := exists_settled (fun _ => 0) 0 (commandWords_eq [] greeting ▸ serves)
  have bytes : greetingBytes (max n n') = 64 := txBytes_of_settled (settled _ (le_max_right _ _))
  have complete : ∀ shot ∈ List.replicate 2 (readyShot (greetingBytes (max n n'))),
      CompleteShot (greetingBytes (max n n')) shot := by
    intro shot member
    rw [List.eq_of_mem_replicate member, bytes]
    exact ⟨_, _, _, rfl, rfl, rfl, by decide, by decide⟩
  have cut := framesOf_shots (greetingRam (max n n')) (show PacketGen.idle.pktState = .s0 from rfl)
    (by rw [bytes]; decide) complete
  have arrives (counter : BitVec 48) :
      Arrives (onWire (frameBeats (greetingRam (max n n')) (greetingBytes (max n n')) counter))
        (greetingFrame (max n n') counter).frame := by
    have whole := arrives_frameBeats (greetingRam (max n n')) counter
      (show 49 ≤ (greetingBytes (max n n')).toNat by rw [bytes]; decide)
    have words : (greetingFrame (max n n') counter).frame =
        (List.range (beatCount (greetingBytes (max n n')))).map
          (frameWord (greetingRam (max n n')) counter) := by
      rw [bytes, Delivery.frame, greetingFrame, spaced, List.map_map]
      exact List.map_id _
    rwa [words]
  have delivers : Delivers
      (framesOf TxBeat.tlast
        (log (PacketGen.clock (greetingRam (max n n'))) PacketGen.transferred .idle
          (List.replicate 2 (readyShot (greetingBytes (max n n')))).flatten))
      [1, 0] [(greetingFrame (max n n') 1).frame, (greetingFrame (max n n') 0).frame] := by
    rw [cut]
    exact .cons ⟨_, rfl, arrives _⟩ (.cons ⟨_, rfl, arrives _⟩ .nil)
  refine ⟨max n n', delivers, ?_⟩
  refine (raises _ (le_max_left _ _) .idle rfl _ complete _ _ delivers RxParser.idle _
    (along_delivered station _ (List.cons_ne_nil _ _))
    ⟨_, idleClock 0, idleClock 0, rfl, rfl, rfl⟩ ?_).1.trans (by decide)
  exact flatMap_delivered _ _

end K71GbE.TenGigEth
