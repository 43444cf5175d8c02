/-
This file proves which frames the receive parser raises a command for, and what
is in it.

A frame is its data words, and what is in it is told by its bytes. It is
delivered with idle clocks before every word as the stream likes, and at least one
before the first.
-/

import K71GbE.TenGigEth.RxBeats

namespace K71GbE.TenGigEth

open Clocked

/-! ### The bytes of a frame -/

section Bytes

variable (frame : List (BitVec 64)) (i : Nat)

/-- Byte `i` of a frame: lane 0 of a word is its first byte. -/
def byte : BitVec 8 := part 8 (frame.getD (i / 8) 0) (i % 8)

/-- Two bytes from byte `i` on, in network order. -/
def field16 : BitVec 16 := byte frame i ++ byte frame (i + 1)

/-- Four bytes from byte `i` on, in network order. -/
def field32 : BitVec 32 := field16 frame i ++ field16 frame (i + 2)

/-- Six bytes from byte `i` on, in network order. -/
def field48 : BitVec 48 := field16 frame i ++ field32 frame (i + 2)

/-- Four bytes from byte `i` on, with the first one in the low byte. -/
def payload32 : BitVec 32 :=
  byte frame (i + 3) ++ byte frame (i + 2) ++ byte frame (i + 1) ++ byte frame i

end Bytes

variable (config : Config)

/-- An ARP request for the own address. -/
def ArpRequest (frame : List (BitVec 64)) : Prop :=
  field16 frame 12 = 0x0806 ∧ field16 frame 20 = 0x0001 ∧ field32 frame 38 = config.srcIp

/-- A UDP datagram for the own addresses and port. -/
def UdpDatagram (frame : List (BitVec 64)) : Prop :=
  field48 frame 0 = config.srcMac ∧ field16 frame 12 = 0x0800 ∧ byte frame 23 = 0x11 ∧
    field32 frame 30 = config.srcIp ∧ field16 frame 36 = config.srcPort

instance (frame : List (BitVec 64)) : Decidable (ArpRequest config frame) :=
  inferInstanceAs (Decidable (_ ∧ _ ∧ _))

instance (frame : List (BitVec 64)) : Decidable (UdpDatagram config frame) :=
  inferInstanceAs (Decidable (_ ∧ _ ∧ _ ∧ _ ∧ _))

/-- A command carries the addresses of the frame, and of a datagram its port and the first word
of its payload. -/
structure Carries (cmd : BitVec 128) (frame : List (BitVec 64)) : Prop where
  srcMac : cmd.extractLsb' 80 48 = field48 frame 6
  arp : ArpRequest config frame → cmd.extractLsb' 48 32 = field32 frame 28 ∧
    cmd.extractLsb' 0 32 = 0
  udp : UdpDatagram config frame → cmd.extractLsb' 48 32 = field32 frame 26 ∧
    cmd.extractLsb' 32 16 = field16 frame 34 ∧ cmd.extractLsb' 0 32 = payload32 frame 42

/-! ### The registers after a frame -/

/-- The beats of a frame: the last word comes with `TLAST`. -/
def beats : List (BitVec 64) → List Beat
  | [] => []
  | [tdata] => [⟨tdata, true⟩]
  | tdata :: more :: rest => ⟨tdata, false⟩ :: beats (more :: rest)

/-- After the sixth word the registers are kept, and the frame ends with its last word. -/
theorem run_beats_s6 (fields : Fields) {rest : List (BitVec 64)} (nonempty : rest ≠ []) :
    run takeBeat (.s6, fields) (beats rest) = (.s0, fields) ∧
      log takeBeat (beatCommand config) (.s6, fields) (beats rest) =
        (command config fields).toList := by
  induction rest with
  | nil => exact absurd rfl nonempty
  | cons tdata rest inductionHypothesis =>
    cases rest with
    | nil => exact ⟨rfl, List.append_nil _⟩
    | cons more rest =>
      obtain ⟨moved, logged⟩ := inductionHypothesis (List.cons_ne_nil _ _)
      exact ⟨moved, logged⟩

/-- The registers after the first six words of a frame, which it leaves as a frame of its type
does. -/
def sixWords (fields : Fields) (b0 b1 b2 b3 b4 b5 : BitVec 64) : Fields :=
  if two b1 4 = pktTypeArp then
    { fields with
      dstMacReg := six b0 0
      srcMacReg := two b0 6 ++ four b1 0
      pktTypeReg := two b1 4
      opcodeReg := two b2 4
      protocolReg := part 8 b2 7
      srcIpReg := four b3 4
      dstIpReg := two b4 6 ++ two b5 0 }
  else
    { dstMacReg := six b0 0
      srcMacReg := two b0 6 ++ four b1 0
      pktTypeReg := two b1 4
      opcodeReg := two b2 4
      protocolReg := part 8 b2 7
      srcIpReg := four b3 2
      dstIpReg := two b3 6 ++ two b4 0
      srcPortReg := two b4 2
      dstPortReg := two b4 4
      udpCmdReg := b5.extractLsb' 16 32 }

/-- The two assignments to the source address fill it. -/
theorem setPart_srcMac (register : BitVec 48) (high : BitVec 16) (low : BitVec 32) :
    setPart (setPart register 2 high) 0 low = high ++ low := by
  refine BitVec.eq_of_getLsbD_eq fun bit small => ?_
  rw [getLsbD_setPart, getLsbD_setPart, BitVec.getLsbD_append]
  by_cases below : bit < 32
  · simp [below, small]
  · have above : 32 ≤ bit := by omega
    simp [below, small, above]

/-- The two assignments to the destination address fill it. -/
theorem setPart_dstIp (register : BitVec 32) (high low : BitVec 16) :
    setPart (setPart register 1 high) 0 low = high ++ low := by
  have first : setPart register 1 high = high ++ register.extractLsb' 0 16 :=
    setPart_one (k := 16) register high
  have second := setPart_zero (k := 16) (setPart register 1 high) low
  rw [second, first, BitVec.extractLsb'_append_eq_of_le (by decide), BitVec.extractLsb'_eq_self]

theorem run_sixWords (fields : Fields) (b0 b1 b2 b3 b4 b5 : BitVec 64) :
    run takeBeat (.s0, fields)
        [⟨b0, false⟩, ⟨b1, false⟩, ⟨b2, false⟩, ⟨b3, false⟩, ⟨b4, false⟩, ⟨b5, false⟩] =
      (.s6, sixWords fields b0 b1 b2 b3 b4 b5) := by
  unfold sixWords
  split_ifs with arp
  · simp only [run_cons, run_nil, takeBeat, parserSm, if_true, arp, Bool.false_eq_true, if_false,
      setPart_srcMac, setPart_dstIp]
  · simp only [run_cons, run_nil, takeBeat, parserSm, if_true, arp, Bool.false_eq_true, if_false,
      setPart_srcMac, setPart_dstIp]

/-! ### What the registers amount to -/

/-- The frame is one of those that a command is raised for. -/
def Accepted (frame : List (BitVec 64)) : Prop := ArpRequest config frame ∨ UdpDatagram config frame

instance (frame : List (BitVec 64)) : Decidable (Accepted config frame) :=
  inferInstanceAs (Decidable (_ ∨ _))

theorem extract_payload (tdata : BitVec 64) :
    tdata.extractLsb' 16 32 =
      part 8 tdata 5 ++ part 8 tdata 4 ++ part 8 tdata 3 ++ part 8 tdata 2 := by
  refine BitVec.eq_of_getLsbD_eq fun bit small => ?_
  simp only [BitVec.getLsbD_append, getLsbD_part, BitVec.getLsbD_extractLsb', decide_eq_true small,
    Bool.true_and]
  split_ifs <;> rw [decide_eq_true (by omega), Bool.true_and] <;> congr 1 <;> omega

/-- The parts of a command word. -/
theorem extract_command (mac : BitVec 48) (ip : BitVec 32) (port : BitVec 16) (word : BitVec 32) :
    let cmd : BitVec 128 := mac ++ ip ++ port ++ word
    cmd.extractLsb' 80 48 = mac ∧ cmd.extractLsb' 48 32 = ip ∧ cmd.extractLsb' 32 16 = port ∧
      cmd.extractLsb' 0 32 = word := by
  intro cmd
  have macAbove : cmd.extractLsb' 80 48 = mac := by
    show (mac ++ ip ++ port ++ word).extractLsb' 80 48 = mac
    rw [BitVec.extractLsb'_append_eq_of_le (by decide),
      BitVec.extractLsb'_append_eq_of_le (by decide),
      BitVec.extractLsb'_append_eq_of_le (by decide)]
    exact BitVec.extractLsb'_eq_self
  have ipBelow : cmd.extractLsb' 48 32 = ip := by
    show (mac ++ ip ++ port ++ word).extractLsb' 48 32 = ip
    rw [BitVec.extractLsb'_append_eq_of_le (by decide),
      BitVec.extractLsb'_append_eq_of_le (by decide),
      BitVec.extractLsb'_append_eq_of_add_le (by decide)]
    exact BitVec.extractLsb'_eq_self
  have portBelow : cmd.extractLsb' 32 16 = port := by
    show (mac ++ ip ++ port ++ word).extractLsb' 32 16 = port
    rw [BitVec.extractLsb'_append_eq_of_le (by decide),
      BitVec.extractLsb'_append_eq_of_add_le (by decide)]
    exact BitVec.extractLsb'_eq_self
  have wordLowest : cmd.extractLsb' 0 32 = word := by
    show (mac ++ ip ++ port ++ word).extractLsb' 0 32 = word
    rw [BitVec.extractLsb'_append_eq_of_add_le (by decide)]
    exact BitVec.extractLsb'_eq_self
  exact ⟨macAbove, ipBelow, portBelow, wordLowest⟩

section Words

variable (fields : Fields) (b0 b1 b2 b3 b4 b5 : BitVec 64) (rest : List (BitVec 64))

theorem udpDatagram_words :
    UdpDatagram config (b0 :: b1 :: b2 :: b3 :: b4 :: b5 :: rest) ↔
      six b0 0 = config.srcMac ∧ two b1 4 = pktTypeIp ∧ part 8 b2 7 = protocolUdp ∧
        two b3 6 ++ two b4 0 = config.srcIp ∧ two b4 4 = config.srcPort := Iff.rfl

theorem arpRequest_words :
    ArpRequest config (b0 :: b1 :: b2 :: b3 :: b4 :: b5 :: rest) ↔
      two b1 4 = pktTypeArp ∧ two b2 4 = opcodeReq ∧ two b4 6 ++ two b5 0 = config.srcIp :=
  Iff.rfl

/-- The command after a frame says what the frame is, and carries its fields. -/
theorem command_sixWords :
    let frame := b0 :: b1 :: b2 :: b3 :: b4 :: b5 :: rest
    List.Forall₂ (Carries config) (command config (sixWords fields b0 b1 b2 b3 b4 b5)).toList
      (if Accepted config frame then [frame] else []) := by
  intro frame
  have other : pktTypeArp ≠ pktTypeIp := by decide
  have arpRequest := arpRequest_words config b0 b1 b2 b3 b4 b5 rest
  have udpDatagram := udpDatagram_words config b0 b1 b2 b3 b4 b5 rest
  by_cases arp : two b1 4 = pktTypeArp
  · have notDatagram : ¬UdpDatagram config frame := fun datagram =>
      other (arp.symm.trans (udpDatagram.mp datagram).2.1)
    rw [sixWords, if_pos arp, command]
    simp only [if_pos arp]
    by_cases request : two b4 6 ++ two b5 0 = config.srcIp ∧ two b2 4 = opcodeReq
    · have met : ArpRequest config frame :=
        arpRequest.mpr ⟨arp, request.2, request.1⟩
      obtain ⟨mac, ip, _, word⟩ := extract_command (two b0 6 ++ four b1 0) (four b3 4)
        fields.srcPortReg 0
      rw [if_pos request, if_pos (show Accepted config frame from .inl met)]
      exact .cons ⟨mac, fun _ => ⟨ip, word⟩, fun datagram => absurd datagram notDatagram⟩ .nil
    · have missed : ¬Accepted config frame := by
        rintro (met | datagram)
        · exact request ⟨(arpRequest.mp met).2.2, (arpRequest.mp met).2.1⟩
        · exact notDatagram datagram
      rw [if_neg request, if_neg missed]
      exact .nil
  · have notRequest : ¬ArpRequest config frame := fun request =>
      arp (arpRequest.mp request).1
    rw [sixWords, if_neg arp, command]
    simp only [if_neg arp]
    by_cases datagram : two b1 4 = pktTypeIp ∧ part 8 b2 7 = protocolUdp ∧
      six b0 0 = config.srcMac ∧ two b3 6 ++ two b4 0 = config.srcIp ∧ two b4 4 = config.srcPort
    · rw [if_pos datagram]
      obtain ⟨ip, protocol, ownMac, ownIp, ownPort⟩ := datagram
      have met : UdpDatagram config frame :=
        udpDatagram.mpr ⟨ownMac, ip, protocol, ownIp, ownPort⟩
      obtain ⟨mac, ip, port, word⟩ := extract_command (two b0 6 ++ four b1 0) (four b3 2)
        (two b4 2) (b5.extractLsb' 16 32)
      rw [if_pos (show Accepted config frame from .inr met)]
      exact .cons ⟨mac, fun request => absurd request notRequest,
        fun _ => ⟨ip, port, word.trans (extract_payload b5)⟩⟩ .nil
    · have missed : ¬Accepted config frame := by
        rintro (request | met)
        · exact notRequest request
        · obtain ⟨ownMac, ip, protocol, ownIp, ownPort⟩ := udpDatagram.mp met
          exact datagram ⟨ip, protocol, ownMac, ownIp, ownPort⟩
      rw [if_neg datagram, if_neg missed]
      exact .nil

end Words

/-- A frame of at least seven words leaves its command, and the parser waits for the next. -/
theorem run_beats (fields : Fields) {frame : List (BitVec 64)} (enough : 7 ≤ frame.length) :
    ∃ after, run takeBeat (.s0, fields) (beats frame) = (.s0, after) ∧
      List.Forall₂ (Carries config) (log takeBeat (beatCommand config) (.s0, fields) (beats frame))
        (if Accepted config frame then [frame] else []) := by
  match frame with
  | b0 :: b1 :: b2 :: b3 :: b4 :: b5 :: b6 :: rest =>
    obtain ⟨moved, logged⟩ := run_beats_s6 config (sixWords fields b0 b1 b2 b3 b4 b5)
      (List.cons_ne_nil b6 rest)
    have split : beats (b0 :: b1 :: b2 :: b3 :: b4 :: b5 :: b6 :: rest) =
        [⟨b0, false⟩, ⟨b1, false⟩, ⟨b2, false⟩, ⟨b3, false⟩, ⟨b4, false⟩, ⟨b5, false⟩] ++
          beats (b6 :: rest) := rfl
    have silent : log takeBeat (beatCommand config) (.s0, fields)
        [⟨b0, false⟩, ⟨b1, false⟩, ⟨b2, false⟩, ⟨b3, false⟩, ⟨b4, false⟩, ⟨b5, false⟩] = [] := rfl
    refine ⟨sixWords fields b0 b1 b2 b3 b4 b5, ?_, ?_⟩
    · rw [split, run_append, run_sixWords, moved]
    · rw [split, log_append, silent, run_sixWords, logged, List.nil_append]
      exact command_sixWords config fields b0 b1 b2 b3 b4 b5 (b6 :: rest)

/-- Frames one after another leave the commands of the accepted ones, in their order. -/
theorem log_frames (fields : Fields) {frames : List (List (BitVec 64))}
    (enough : ∀ frame ∈ frames, 7 ≤ frame.length) :
    List.Forall₂ (Carries config)
      (log takeBeat (beatCommand config) (.s0, fields) (frames.flatMap beats))
      (frames.filter (Accepted config ·)) := by
  induction frames generalizing fields with
  | nil => exact .nil
  | cons frame rest inductionHypothesis =>
    obtain ⟨first, later⟩ := List.forall_mem_cons.mp enough
    obtain ⟨after, moved, logged⟩ := run_beats config fields first
    have head : (frame :: rest).filter (Accepted config ·) =
        (if Accepted config frame then [frame] else []) ++ rest.filter (Accepted config ·) := by
      rw [List.filter_cons]
      split_ifs with accepted <;> simp_all
    rw [List.flatMap_cons, log_append, moved, head]
    exact List.rel_append logged (inductionHypothesis after later)

/-- After frames the parser waits for the next. -/
theorem run_frames (fields : Fields) {frames : List (List (BitVec 64))}
    (enough : ∀ frame ∈ frames, 7 ≤ frame.length) :
    (run takeBeat (.s0, fields) (frames.flatMap beats)).1 = .s0 := by
  induction frames generalizing fields with
  | nil => rfl
  | cons frame rest inductionHypothesis =>
    obtain ⟨first, later⟩ := List.forall_mem_cons.mp enough
    obtain ⟨after, moved, -⟩ := run_beats ⟨0, 0, 0⟩ fields first
    rw [List.flatMap_cons, run_append, moved]
    exact inductionHypothesis after later

/-! ### Deliveries -/

/-- A clock without a beat. -/
def idleClock (tdata : BitVec 64) : RxInput := ⟨tdata, false, false, false⟩

/-- The clocks of a frame: before every word some without a beat, with anything on `TDATA`. -/
def clocks : List (List (BitVec 64) × BitVec 64) → List RxInput
  | [] => []
  | [(gap, tdata)] => gap.map idleClock ++ [⟨tdata, true, true, false⟩]
  | (gap, tdata) :: more :: rest =>
    gap.map idleClock ++ ⟨tdata, true, false, false⟩ :: clocks (more :: rest)

/-- A frame of at least eight words that comes after at least one clock without a beat. -/
structure Delivery where
  words : List (List (BitVec 64) × BitVec 64)
  enough : 8 ≤ words.length
  apart : ∀ first ∈ words.head?, first.1 ≠ []

/-- The frame that is delivered. -/
def Delivery.frame (delivery : Delivery) : List (BitVec 64) := delivery.words.map Prod.snd

theorem enough_frames (deliveries : List Delivery) :
    ∀ frame ∈ deliveries.map Delivery.frame, 7 ≤ frame.length := by
  simp only [List.mem_map, forall_exists_index, and_imp, forall_apply_eq_imp_iff₂]
  intro delivery _
  rw [Delivery.frame, List.length_map]
  exact Nat.le_of_succ_le delivery.enough

/-- The inputs while frames are delivered, and after them. -/
def delivered (deliveries : List Delivery) (trailing : List (BitVec 64)) : List RxInput :=
  deliveries.flatMap (fun delivery => clocks delivery.words) ++ trailing.map idleClock

theorem flatMap_idleClock (gap : List (BitVec 64)) :
    (gap.map idleClock).flatMap RxInput.transferred = [] := by
  rw [List.flatMap_map, List.flatMap_eq_nil_iff]
  intro tdata _
  rfl

theorem flatMap_clocks (words : List (List (BitVec 64) × BitVec 64)) :
    (clocks words).flatMap RxInput.transferred = beats (words.map Prod.snd) := by
  induction words with
  | nil => rfl
  | cons word rest inductionHypothesis =>
    obtain ⟨gap, tdata⟩ := word
    cases rest with
    | nil => rw [clocks, List.flatMap_append, flatMap_idleClock]; rfl
    | cons more rest =>
      rw [clocks, List.flatMap_append, flatMap_idleClock, List.flatMap_cons, inductionHypothesis]
      rfl

/-- The beats that are transferred are those of the frames. -/
theorem flatMap_delivered (deliveries : List Delivery) (trailing : List (BitVec 64)) :
    (delivered deliveries trailing).flatMap RxInput.transferred =
      (deliveries.map Delivery.frame).flatMap beats := by
  rw [delivered, List.flatMap_append, flatMap_idleClock, List.append_nil, List.flatMap_assoc,
    List.flatMap_map]
  exact List.flatMap_congr fun delivery _ => flatMap_clocks delivery.words

/-! ### Deliveries are orderly -/

/-- The next clock may bring a beat. -/
def Ready (rx : RxParser) : Prop :=
  rx.tlastI = false ∧ (rx.parserState = .s0 → rx.tvalidPrev = false)

variable {rx : RxParser}

theorem orderly_idleClock (tdata : BitVec 64) : Orderly config rx (idleClock tdata) :=
  ⟨fun _ => rfl, nofun, nofun, fun _ _ => rfl⟩

theorem orderly_word (ready : Ready rx) (tdata : BitVec 64) (tlast : Bool) :
    Orderly config rx ⟨tdata, true, tlast, false⟩ where
  gap met := by
    rcases met with last | ⟨state, before⟩
    · rw [ready.1] at last
      cases last
    · rw [ready.2 state] at before
      cases before
  last _ := rfl
  held _ full := by cases full
  room _ _ := rfl

theorem ready_idleClock (tdata : BitVec 64) : Ready (rx.clock config (idleClock tdata)) :=
  ⟨rfl, fun _ => rfl⟩

/-- After a word that is not the last the parser is inside the frame. -/
theorem ready_word (ready : Ready rx) (tdata : BitVec 64) :
    Ready (rx.clock config ⟨tdata, true, false, false⟩) := by
  refine ⟨rfl, fun state => ?_⟩
  have moved := congrArg Prod.fst (RxParser.clock_takeBeat (orderly_word config ready tdata false))
  exact absurd (moved.symm.trans state) takeBeat_ne_s0

theorem along_gap {gap : List (BitVec 64)} (apart : Ready rx ∨ gap ≠ []) :
    Along (RxParser.clock config) (Orderly config) rx (gap.map idleClock) ∧
      Ready (run (RxParser.clock config) rx (gap.map idleClock)) := by
  induction gap generalizing rx with
  | nil => exact ⟨trivial, apart.resolve_right fun nonempty => nonempty rfl⟩
  | cons tdata rest inductionHypothesis =>
    obtain ⟨along, ready⟩ := inductionHypothesis (.inl (ready_idleClock config tdata))
    exact ⟨⟨orderly_idleClock config tdata, along⟩, ready⟩

theorem along_clocks {words : List (List (BitVec 64) × BitVec 64)}
    (apart : ∀ first ∈ words.head?, Ready rx ∨ first.1 ≠ []) :
    Along (RxParser.clock config) (Orderly config) rx (clocks words) := by
  induction words generalizing rx with
  | nil => trivial
  | cons word rest inductionHypothesis =>
    obtain ⟨gap, tdata⟩ := word
    obtain ⟨along, ready⟩ := along_gap config (apart (gap, tdata) rfl)
    cases rest with
    | nil =>
      rw [clocks, along_append]
      exact ⟨along, orderly_word config ready tdata true, trivial⟩
    | cons more rest =>
      rw [clocks, along_append]
      exact ⟨along, orderly_word config ready tdata false,
        inductionHypothesis fun _ _ => .inl (ready_word config ready tdata)⟩

theorem along_delivered (deliveries : List Delivery) {trailing : List (BitVec 64)}
    (nonempty : trailing ≠ []) :
    Along (RxParser.clock config) (Orderly config) rx (delivered deliveries trailing) := by
  induction deliveries generalizing rx with
  | nil => exact (along_gap config (.inr nonempty)).1
  | cons delivery rest inductionHypothesis =>
    rw [delivered, List.flatMap_cons, List.append_assoc, along_append]
    exact ⟨along_clocks config fun first met => .inr (delivery.apart first met),
      inductionHypothesis⟩

/-- Every ARP request for the own address and every UDP datagram for the own addresses and port
leaves one command with its fields, in the order of the frames, and no other frame does. -/
theorem commands_of_frames (rx : RxParser) (deliveries : List Delivery)
    {trailing : List (BitVec 64)} (ended : 2 ≤ trailing.length) :
    List.Forall₂ (Carries config)
      (log (RxParser.clock config) (RxParser.pushed config) rx.reset
        (delivered deliveries trailing))
      ((deliveries.map Delivery.frame).filter (Accepted config ·)) := by
  have nonempty : trailing ≠ [] := List.ne_nil_of_length_pos (Nat.zero_lt_of_lt ended)
  have orderly : Along (RxParser.clock config) (Orderly config) rx.reset
    (delivered deliveries trailing) := along_delivered config deliveries nonempty
  have pushes := RxParser.log_pushed rx orderly
  have quiet : (run (RxParser.clock config) rx.reset (delivered deliveries trailing)).pending
      config = [] := by
    obtain ⟨early, last, rfl⟩ := List.eq_nil_or_concat trailing |>.resolve_left nonempty
    obtain ⟨early, last', rfl⟩ := List.eq_nil_or_concat early |>.resolve_left (by
      rintro rfl
      exact absurd ended (by simp))
    simp only [delivered, List.concat_eq_append, List.map_append, run_append]
    exact RxParser.pending_clock_clock _ rfl rfl
  rw [quiet, List.append_nil, flatMap_delivered] at pushes
  rw [pushes]
  exact log_frames config .zero (enough_frames deliveries)

/-! ### A datagram and a request -/

/-- The station 02:00:00:00:00:01, 10.0.0.1, with port 0x5678. -/
def station : Config := ⟨0x020000000001, 0x0a000001, 0x5678⟩

/-- A datagram to the station from port 0x1234 of 10.0.0.2, with payload de ad be ef. -/
def datagram : List (BitVec 64) :=
  [0x0002010000000002, 0x0045000802000000, 0x1100000000000000,
    0x000a0200000a0000, 0x0000785634120100, 0x0000efbeadde0000, 0, 0]

/-- A request for the address of the station from 10.0.0.2. -/
def request : List (BitVec 64) :=
  [0x0002ffffffffffff, 0x0100060802000000, 0x0002010004060008, 0x0200000a02000000,
    0x000a000000000000, 0x0000000000000100, 0, 0]

/-- With one clock without a beat before every word. -/
def spaced (frame : List (BitVec 64)) (enough : 8 ≤ frame.length) : Delivery where
  words := frame.map fun tdata => ([0], tdata)
  enough := by rwa [List.length_map]
  apart := by
    intro first member
    rw [List.head?_map] at member
    obtain ⟨tdata, _, rfl⟩ := Option.map_eq_some_iff.mp member
    exact List.cons_ne_nil _ _

/-- A parser at rest. -/
def RxParser.idle : RxParser := ⟨false, false, false, .s0, .zero, .s0, 0, false⟩

theorem commands_of_frames_sample :
    List.Forall₂ (Carries station)
      (log (RxParser.clock station) (RxParser.pushed station) RxParser.idle.reset
        (delivered [spaced datagram (by decide), spaced request (by decide)] [0, 0]))
      [datagram, request] := by
  have kept : (([spaced datagram (by decide), spaced request (by decide)].map
      Delivery.frame).filter (Accepted station ·)) = [datagram, request] := by decide
  rw [← kept]
  exact commands_of_frames station RxParser.idle _ (by decide)

end K71GbE.TenGigEth
