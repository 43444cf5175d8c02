/-
This file models `ten_gig_eth_packet_gen_simple`, which sends the packet RAM as
one frame on a 64-bit stream.

One clock is a falling edge, at which the state machine and the data register
work, and the rising edge after it, at which the RAM is read and a word is
transferred. `TREADY` is the same at both edges. The RAM is written by the other
port and does not change while a frame is sent; `RESET` is asynchronous.
-/

import K71GbE.Clocked.Lanes
import K71GbE.Clocked.Machine
import K71GbE.Clocked.SetBits

namespace K71GbE.TenGigEth

open Clocked

/-- `pktState_type`. -/
inductive PktState where
  | s0 | s1 | s2 | s3 | s4
deriving DecidableEq, Repr

/-- The registers, with the output of the RAM. -/
structure PacketGen where
  pktState : PktState
  addrCtr : BitVec 16
  bytesLeft : BitVec 16
  bytesLeftReg : BitVec 16
  pktCtr : BitVec 48
  doutb : BitVec 64
  txAxisTdata : BitVec 64
  txAxisTvalid : Bool
  txAxisTlast : Bool
deriving DecidableEq, Repr

/-- The inputs of one clock. -/
structure GenInput where
  txStart : Bool
  txBytes : BitVec 16
  txAxisTready : Bool
deriving DecidableEq, Repr

/-- A word on the stream, with its `TKEEP` and `TLAST`. -/
structure TxBeat where
  tdata : BitVec 64
  tkeep : BitVec 8
  tlast : Bool
deriving DecidableEq, Repr

/-- `TX_AXIS_TKEEP`. -/
def txAxisTkeep (bytesLeftReg : BitVec 16) : BitVec 8 :=
  match bytesLeftReg.toNat with
  | 0 => 0b00000000
  | 1 => 0b00000001
  | 2 => 0b00000011
  | 3 => 0b00000111
  | 4 => 0b00001111
  | 5 => 0b00011111
  | 6 => 0b00111111
  | 7 => 0b01111111
  | _ => 0b11111111

namespace PacketGen

/-- The asynchronous reset. -/
def reset (state : PacketGen) : PacketGen :=
  { state with
    pktState := .s0
    pktCtr := 0
    addrCtr := 0
    txAxisTvalid := false
    txAxisTlast := false }

/-- The generator after reset. -/
def idle : PacketGen := reset ⟨.s0, 0, 0, 0, 0, 0, 0, false, false⟩

/-- The word that the data register takes: in word 5 the packet counter replaces the upper bytes. -/
def data (state : PacketGen) : BitVec 64 :=
  if state.addrCtr = 5 then state.pktCtr ++ state.doutb.extractLsb' 0 16 else state.doutb

/-- `pkt_sm` at a falling edge. -/
def pktSm (state : PacketGen) (input : GenInput) : PacketGen :=
  let quiet := { state with txAxisTvalid := false, txAxisTlast := false }
  match state.pktState with
  | .s0 =>
    if input.txStart then
      { quiet with
        addrCtr := 0
        bytesLeft := input.txBytes
        pktState := if input.txBytes < 14 then .s0 else .s1 }
    else quiet
  | .s1 =>
    let valid := { quiet with txAxisTvalid := true }
    if input.txAxisTready then
      { valid with
        addrCtr := state.addrCtr + 1
        bytesLeftReg := state.bytesLeft
        bytesLeft := state.bytesLeft - 8
        pktState := if state.bytesLeft ≤ 8 then .s2 else .s1
        txAxisTlast := decide (state.bytesLeft ≤ 8) }
    else valid
  | .s2 => { quiet with pktState := .s0, pktCtr := state.pktCtr + 1 }
  | .s3 | .s4 => { quiet with pktState := .s0 }

/-- A falling edge. -/
def falling (state : PacketGen) (input : GenInput) : PacketGen :=
  { state.pktSm input with txAxisTdata := state.data }

/-- A rising edge, at which the RAM is read. -/
def rising (ram : BitVec 11 → BitVec 64) (state : PacketGen) : PacketGen :=
  { state with doutb := ram (state.addrCtr.setWidth 11) }

/-- A falling edge and the rising edge after it. -/
def clock (ram : BitVec 11 → BitVec 64) (state : PacketGen) (input : GenInput) : PacketGen :=
  (state.falling input).rising ram

/-- The word transferred at the rising edge. -/
def transferred (state : PacketGen) (input : GenInput) : List TxBeat :=
  let next := state.falling input
  if next.txAxisTvalid && input.txAxisTready then
    [⟨next.txAxisTdata, txAxisTkeep next.bytesLeftReg, next.txAxisTlast⟩]
  else []

end PacketGen

/-! ### The words of a frame -/

/-- The number of words that a frame of so many bytes takes. -/
def beatCount (bytes : BitVec 16) : Nat := (bytes.toNat + 7) / 8

section Frame

variable (ram : BitVec 11 → BitVec 64) (bytes : BitVec 16) (counter : BitVec 48) (k : Nat)

/-- The data of word `k`. -/
def frameWord : BitVec 64 :=
  if k = 5 then counter ++ (ram (BitVec.ofNat 11 k)).extractLsb' 0 16 else ram (BitVec.ofNat 11 k)

/-- Word `k` of a frame. -/
def frameBeat : TxBeat where
  tdata := frameWord ram counter k
  tkeep := txAxisTkeep (BitVec.ofNat 16 (bytes.toNat - k * 8))
  tlast := decide (k + 1 = beatCount bytes)

/-- The words of a frame. -/
def frameBeats : List TxBeat := (List.range (beatCount bytes)).map (frameBeat ram bytes counter)

/-- A frame of so many bytes is sent, and its word `k` is next, whatever the data. -/
structure Framing (state : PacketGen) : Prop where
  within : k < beatCount bytes
  sending : state.pktState = .s1
  left : state.bytesLeft.toNat + k * 8 = bytes.toNat

/-- Word `k` of a frame is next. -/
structure Sending (state : PacketGen) : Prop where
  within : k < beatCount bytes
  sending : state.pktState = .s1
  address : state.addrCtr = BitVec.ofNat 16 k
  left : state.bytesLeft.toNat + k * 8 = bytes.toNat
  read : state.doutb = ram (BitVec.ofNat 11 k)
  counted : state.pktCtr = counter

end Frame

section Words

variable (ram : BitVec 11 → BitVec 64) (bytes : BitVec 16) (counter : BitVec 48) (k : Nat)

theorem length_frameBeats : (frameBeats ram bytes counter).length = beatCount bytes := by
  rw [frameBeats, List.length_map, List.length_range]

theorem getElem_frameBeats (inside : k < (frameBeats ram bytes counter).length) :
    (frameBeats ram bytes counter)[k] = frameBeat ram bytes counter k := by
  simp only [frameBeats, List.getElem_map, List.getElem_range]

theorem frameBeats_last (inside : k < (frameBeats ram bytes counter).length) :
    (frameBeats ram bytes counter)[k].tlast =
      decide (k + 1 = (frameBeats ram bytes counter).length) := by
  rw [getElem_frameBeats, length_frameBeats, frameBeat]

end Words

/-! ### Its words without their data -/

/-- `TKEEP` and `TLAST` of a word. -/
def TxBeat.marks (beat : TxBeat) : BitVec 8 × Bool := (beat.tkeep, beat.tlast)

/-- `TKEEP` and `TLAST` of the words of a frame. -/
def frameMarks (bytes : BitVec 16) : List (BitVec 8 × Bool) :=
  (frameBeats (fun _ => 0) bytes 0).map TxBeat.marks

section Marks

variable (bytes : BitVec 16) {k : Nat}

/-- `TKEEP` and `TLAST` of word `k` of a frame. -/
def marksAt (k : Nat) : BitVec 8 × Bool :=
  (txAxisTkeep (BitVec.ofNat 16 (bytes.toNat - k * 8)), decide (k + 1 = beatCount bytes))

theorem length_frameMarks : (frameMarks bytes).length = beatCount bytes := by
  rw [frameMarks, List.length_map, length_frameBeats]

theorem getElem_frameMarks (inside : k < (frameMarks bytes).length) :
    (frameMarks bytes)[k] = marksAt bytes k := by
  simp only [frameMarks, List.getElem_map, getElem_frameBeats]
  rfl

theorem drop_frameMarks (within : k < beatCount bytes) :
    (frameMarks bytes).drop k = marksAt bytes k :: (frameMarks bytes).drop (k + 1) := by
  have inside : k < (frameMarks bytes).length := by rwa [length_frameMarks]
  rw [List.drop_eq_getElem_cons inside, getElem_frameMarks]

theorem take_frameMarks (within : k < beatCount bytes) :
    (frameMarks bytes).take (k + 1) = (frameMarks bytes).take k ++ [marksAt bytes k] := by
  have inside : k < (frameMarks bytes).length := by rwa [length_frameMarks]
  rw [List.take_add_one, List.getElem?_eq_getElem inside, getElem_frameMarks]
  rfl

end Marks

/-! ### What a clock does -/

section Step

variable {ram : BitVec 11 → BitVec 64} {bytes : BitVec 16} {counter : BitVec 48} {k : Nat}
  {state : PacketGen} {input : GenInput}

/-- A word that is not taken is put on the stream again. -/
theorem clock_of_stall (ram : BitVec 11 → BitVec 64) (sending : state.pktState = .s1)
    (stall : input.txAxisTready = false) :
    state.clock ram input =
      { state with
        txAxisTvalid := true
        txAxisTlast := false
        txAxisTdata := state.data
        doutb := ram (state.addrCtr.setWidth 11) } := by
  unfold PacketGen.clock PacketGen.rising PacketGen.falling PacketGen.pktSm
  rw [sending, stall]
  rfl

/-- A word that is taken makes way for the next one, or ends the frame. -/
theorem clock_of_ready (ram : BitVec 11 → BitVec 64) (sending : state.pktState = .s1)
    (ready : input.txAxisTready = true) :
    state.clock ram input =
      { state with
        pktState := if state.bytesLeft ≤ 8 then .s2 else .s1
        txAxisTvalid := true
        txAxisTlast := decide (state.bytesLeft ≤ 8)
        txAxisTdata := state.data
        addrCtr := state.addrCtr + 1
        bytesLeftReg := state.bytesLeft
        bytesLeft := state.bytesLeft - 8
        doutb := ram ((state.addrCtr + 1).setWidth 11) } := by
  unfold PacketGen.clock PacketGen.rising PacketGen.falling PacketGen.pktSm
  rw [sending, ready]
  rfl

/-- A start at rest reads the first word, if the frame is long enough. -/
theorem clock_of_start (ram : BitVec 11 → BitVec 64) (atRest : state.pktState = .s0)
    (start : input.txStart = true) :
    state.clock ram input =
      { state with
        pktState := if input.txBytes < 14 then .s0 else .s1
        txAxisTvalid := false
        txAxisTlast := false
        txAxisTdata := state.data
        addrCtr := 0
        bytesLeft := input.txBytes
        doutb := ram 0 } := by
  unfold PacketGen.clock PacketGen.rising PacketGen.falling PacketGen.pktSm
  rw [atRest, start]
  rfl

/-! ### The word that is next -/

/-- The word that is next is the last one if at most eight bytes are left. -/
theorem Framing.last_iff (framing : Framing bytes k state) :
    state.bytesLeft ≤ 8 ↔ k + 1 = beatCount bytes := by
  have within := framing.within
  have left := framing.left
  rw [BitVec.le_def]
  show state.bytesLeft.toNat ≤ 8 ↔ _
  unfold beatCount at within ⊢
  omega

theorem Framing.left_eq (framing : Framing bytes k state) :
    state.bytesLeft = BitVec.ofNat 16 (bytes.toNat - k * 8) := by
  rw [← framing.left, Nat.add_sub_cancel, BitVec.ofNat_toNat, BitVec.setWidth_eq]

/-- The word is transferred when the receiver is ready. -/
theorem Framing.transferred (framing : Framing bytes k state) (input : GenInput) :
    state.transferred input =
      if input.txAxisTready then
        [⟨state.data, txAxisTkeep (BitVec.ofNat 16 (bytes.toNat - k * 8)),
          decide (k + 1 = beatCount bytes)⟩]
      else [] := by
  unfold PacketGen.transferred PacketGen.falling PacketGen.pktSm
  rw [framing.sending, ← framing.left_eq, ← decide_eq_decide.mpr framing.last_iff]
  cases input.txAxisTready <;> rfl

/-- A stalled word stays. -/
theorem Framing.stalled (framing : Framing bytes k state) (ram : BitVec 11 → BitVec 64)
    (stall : input.txAxisTready = false) : Framing bytes k (state.clock ram input) := by
  rw [clock_of_stall ram framing.sending stall]
  exact ⟨framing.within, framing.sending, framing.left⟩

/-- After a word that is not the last one comes the next word. -/
theorem Framing.next (framing : Framing bytes k state) (ram : BitVec 11 → BitVec 64)
    (ready : input.txAxisTready = true) (more : k + 1 < beatCount bytes) :
    Framing bytes (k + 1) (state.clock ram input) := by
  have notLast : ¬state.bytesLeft ≤ 8 := fun last => more.ne (framing.last_iff.mp last)
  rw [clock_of_ready ram framing.sending ready, if_neg notLast]
  refine ⟨more, rfl, ?_⟩
  show (state.bytesLeft - 8#16).toNat + _ = _
  have left := framing.left
  have wide := state.bytesLeft.isLt
  have many : 8 < state.bytesLeft.toNat := BitVec.lt_def.mp (BitVec.not_le.mp notLast)
  rw [BitVec.toNat_sub]
  show (2 ^ 16 - 8 + state.bytesLeft.toNat) % 2 ^ 16 + _ = _
  omega

/-- After the last word the frame is over. -/
theorem Framing.last (framing : Framing bytes k state) (ram : BitVec 11 → BitVec 64)
    (ready : input.txAxisTready = true) (last : k + 1 = beatCount bytes) :
    (state.clock ram input).pktState = .s2 := by
  rw [clock_of_ready ram framing.sending ready]
  exact if_pos (framing.last_iff.mpr last)

/-- A start at rest begins a frame. -/
theorem framing_of_start (ram : BitVec 11 → BitVec 64) (input : GenInput)
    (atRest : state.pktState = .s0) (start : input.txStart = true)
    (long : 14 ≤ input.txBytes.toNat) :
    Framing input.txBytes 0 (state.clock ram input) := by
  have enough : ¬input.txBytes < 14 := BitVec.not_lt.mpr (BitVec.le_def.mpr long)
  rw [clock_of_start ram atRest start, if_neg enough]
  refine ⟨?_, rfl, ?_⟩
  · unfold beatCount
    omega
  · rw [Nat.zero_mul, Nat.add_zero]

theorem Sending.framing (sending : Sending ram bytes counter k state) : Framing bytes k state :=
  ⟨sending.within, sending.sending, sending.left⟩

theorem Sending.data_eq (sending : Sending ram bytes counter k state) :
    state.data = frameWord ram counter k := by
  have small : k < 2 ^ 16 := by
    have within := sending.within
    have bound := bytes.isLt
    unfold beatCount at within
    omega
  have fifth : state.addrCtr = 5 ↔ k = 5 := by
    rw [sending.address]
    constructor
    · intro same
      have value := congrArg BitVec.toNat same
      rwa [BitVec.toNat_ofNat, Nat.mod_eq_of_lt small] at value
    · rintro rfl
      rfl
  rw [PacketGen.data, frameWord, sending.read, sending.counted]
  exact if_congr fifth rfl rfl

theorem Sending.transferred (sending : Sending ram bytes counter k state) (input : GenInput) :
    state.transferred input =
      if input.txAxisTready then [frameBeat ram bytes counter k] else [] := by
  rw [sending.framing.transferred, sending.data_eq]
  rfl

theorem Sending.stalled (sending : Sending ram bytes counter k state)
    (stall : input.txAxisTready = false) : Sending ram bytes counter k (state.clock ram input) := by
  obtain ⟨within, stays, left⟩ := sending.framing.stalled ram stall
  rw [clock_of_stall ram sending.sending stall] at *
  refine ⟨within, stays, sending.address, left, ?_, sending.counted⟩
  show ram _ = _
  rw [sending.address, BitVec.setWidth_ofNat_of_le (by decide)]

theorem Sending.next (sending : Sending ram bytes counter k state)
    (ready : input.txAxisTready = true) (more : k + 1 < beatCount bytes) :
    Sending ram bytes counter (k + 1) (state.clock ram input) := by
  obtain ⟨within, stays, left⟩ := sending.framing.next ram ready more
  have address : state.addrCtr + 1 = BitVec.ofNat 16 (k + 1) := by
    rw [sending.address, BitVec.ofNat_add]
    rfl
  rw [clock_of_ready ram sending.sending ready] at *
  refine ⟨within, stays, address, left, ?_, sending.counted⟩
  show ram _ = _
  rw [address, BitVec.setWidth_ofNat_of_le (by decide)]

/-- A start at rest reads the first word. -/
theorem sending_of_start (ram : BitVec 11 → BitVec 64) (atRest : state.pktState = .s0)
    (start : input.txStart = true) (long : 14 ≤ input.txBytes.toNat) :
    Sending ram input.txBytes state.pktCtr 0 (state.clock ram input) := by
  obtain ⟨within, begins, left⟩ := framing_of_start ram input atRest start long
  rw [clock_of_start ram atRest start] at *
  exact ⟨within, begins, rfl, left, rfl, rfl⟩

/-- Outside a frame nothing is transferred. -/
theorem transferred_of_other (input : GenInput) (other : state.pktState ≠ .s1) :
    state.transferred input = [] := by
  unfold PacketGen.transferred PacketGen.falling PacketGen.pktSm
  cases at_ : state.pktState with
  | s1 => exact absurd at_ other
  | s0 => cases input.txStart <;> rfl
  | _ => rfl

/-- Without a start the generator comes to rest, and stays there. -/
theorem clock_of_other (ram : BitVec 11 → BitVec 64) (quiet : input.txStart = false)
    (other : state.pktState ≠ .s1) : (state.clock ram input).pktState = .s0 := by
  unfold PacketGen.clock PacketGen.rising PacketGen.falling PacketGen.pktSm
  cases at_ : state.pktState with
  | s1 => exact absurd at_ other
  | s0 =>
    rw [quiet]
    rfl
  | _ => rfl

end Step

/-! ### Runs -/

section Run

variable {ram : BitVec 11 → BitVec 64} {bytes : BitVec 16} {counter : BitVec 48} {k : Nat}
  {state : PacketGen} {inputs : List GenInput}

theorem log_of_other (ram : BitVec 11 → BitVec 64)
    (quiet : ∀ input ∈ inputs, input.txStart = false) (other : state.pktState ≠ .s1) :
    log (PacketGen.clock ram) PacketGen.transferred state inputs = [] := by
  induction inputs generalizing state with
  | nil => rfl
  | cons input rest inductionHypothesis =>
    obtain ⟨first, later⟩ := List.forall_mem_cons.mp quiet
    have atRest := clock_of_other ram first other
    rw [log_cons, transferred_of_other input other,
      inductionHypothesis later (by rw [atRest]; decide), List.nil_append]

theorem drop_frameBeats (within : k < beatCount bytes) :
    (frameBeats ram bytes counter).drop k =
      frameBeat ram bytes counter k :: (frameBeats ram bytes counter).drop (k + 1) := by
  have inside : k < (frameBeats ram bytes counter).length := by
    rwa [length_frameBeats]
  rw [List.drop_eq_getElem_cons inside, getElem_frameBeats]

/-- What is left of a frame is transferred, one word at every clock at which the receiver is
ready, and nothing after it. -/
theorem Sending.log (sending : Sending ram bytes counter k state)
    (quiet : ∀ input ∈ inputs, input.txStart = false) :
    log (PacketGen.clock ram) PacketGen.transferred state inputs =
      ((frameBeats ram bytes counter).drop k).take (inputs.countP GenInput.txAxisTready) := by
  induction inputs generalizing state k with
  | nil => rfl
  | cons input rest inductionHypothesis =>
    obtain ⟨first, later⟩ := List.forall_mem_cons.mp quiet
    rw [log_cons, sending.transferred]
    cases ready : input.txAxisTready with
    | false =>
      rw [if_neg Bool.false_ne_true, List.nil_append, List.countP_cons_of_neg (by simp [ready])]
      exact inductionHypothesis (sending.stalled ready) later
    | true =>
      rw [if_pos rfl, List.countP_cons_of_pos ready, drop_frameBeats sending.within,
        List.take_succ_cons, List.singleton_append]
      refine congrArg (_ :: ·) ?_
      rcases Nat.lt_or_eq_of_le (Nat.succ_le_of_lt sending.within) with more | last
      · exact inductionHypothesis (sending.next ready more) later
      · have nothing : (frameBeats ram bytes counter).drop (k + 1) = [] := by
          rw [List.drop_eq_nil_iff, frameBeats, List.length_map, List.length_range]
          exact last.ge
        rw [nothing, List.take_nil]
        exact log_of_other ram later (by rw [sending.framing.last ram ready last]; decide)

/-- A start at rest sends one frame. -/
theorem log_start (ram : BitVec 11 → BitVec 64) {start : GenInput} (atRest : state.pktState = .s0)
    (started : start.txStart = true) (long : 14 ≤ start.txBytes.toNat)
    (quiet : ∀ input ∈ inputs, input.txStart = false) :
    log (PacketGen.clock ram) PacketGen.transferred state (start :: inputs) =
      (frameBeats ram start.txBytes state.pktCtr).take
        (inputs.countP GenInput.txAxisTready) := by
  rw [log_cons, transferred_of_other start (by rw [atRest]; decide), List.nil_append,
    (sending_of_start ram atRest started long).log quiet, List.drop_zero]

end Run

/-! ### The bytes of a frame -/

/-- The bytes of a word that `TKEEP` marks, lane 0 first. -/
def TxBeat.bytes (beat : TxBeat) : List (BitVec 8) := (setBits beat.tkeep).map (part 8 beat.tdata)

/-- The bytes on the stream. -/
def onWire (beats : List TxBeat) : List (BitVec 8) := beats.flatMap TxBeat.bytes

/-- `TKEEP` marks as many lanes as bytes are left, from lane 0 on. -/
theorem setBits_txAxisTkeep (bytesLeftReg : BitVec 16) :
    setBits (txAxisTkeep bytesLeftReg) = (List.range 8).take bytesLeftReg.toNat := by
  unfold txAxisTkeep
  split
  case h_9 small =>
    have many : 8 ≤ bytesLeftReg.toNat := by grind
    rw [List.take_of_length_le (by rwa [List.length_range])]
    rfl
  all_goals
    rename_i left
    rw [left]
    rfl

section Bytes

variable (ram : BitVec 11 → BitVec 64) (bytes : BitVec 16) (counter : BitVec 48)

theorem bytes_frameBeat (k : Nat) :
    (frameBeat ram bytes counter k).bytes =
      (lanes 8 8 (frameWord ram counter k)).take (bytes.toNat - k * 8) := by
  have fits : (BitVec.ofNat 16 (bytes.toNat - k * 8)).toNat = bytes.toNat - k * 8 := by
    have bound := bytes.isLt
    rw [BitVec.toNat_ofNat, Nat.mod_eq_of_lt (by omega)]
  rw [TxBeat.bytes, frameBeat, setBits_txAxisTkeep, fits, List.map_take, lanes]

/-- A frame on the stream is the lanes of its words, up to its number of bytes. -/
theorem onWire_frameBeats :
    onWire (frameBeats ram bytes counter) =
      ((List.range (beatCount bytes)).flatMap fun k => lanes 8 8 (frameWord ram counter k)).take
        bytes.toNat := by
  rw [onWire, frameBeats, List.flatMap_map, ← flatMap_take fun k => length_lanes _]
  exact List.flatMap_congr fun k _ => bytes_frameBeat ram bytes counter k

theorem length_onWire : (onWire (frameBeats ram bytes counter)).length = bytes.toNat := by
  rw [onWire_frameBeats, List.length_take, length_flatMap_range fun k => length_lanes _]
  unfold beatCount
  omega

/-- The bytes of the first words of the RAM. -/
def ramBytes (n : Nat) : List (BitVec 8) :=
  (List.range n).flatMap fun k => lanes 8 8 (ram (BitVec.ofNat 11 k))

/-- A frame that reaches word 5 carries 42 bytes of the RAM and then the packet counter. -/
theorem onWire_split (long : 40 < bytes.toNat) :
    ∃ later, onWire (frameBeats ram bytes counter) =
      ((ramBytes ram 6).take 42 ++ lanes 8 6 counter ++ later).take bytes.toNat := by
  obtain ⟨more, count⟩ : ∃ more, beatCount bytes = 5 + 1 + more := by
    refine ⟨beatCount bytes - 6, ?_⟩
    unfold beatCount
    omega
  have first : ((List.range 5).flatMap fun k => lanes 8 8 (frameWord ram counter k)) =
      ramBytes ram 5 := by
    refine List.flatMap_congr fun k member => ?_
    rw [frameWord, if_neg (List.mem_range.mp member).ne]
  have fifth : lanes 8 8 (frameWord ram counter 5) =
      (lanes 8 8 (ram 5)).take 2 ++ lanes 8 6 counter := by
    have sides : lanes 8 (2 + 6) (counter ++ (ram 5).extractLsb' 0 16) =
        lanes 8 2 ((ram 5).extractLsb' 0 16) ++ lanes 8 6 counter :=
      lanes_append counter ((ram 5).extractLsb' 0 16) rfl
    rw [take_lanes _ (by decide)]
    exact sides
  have header : (ramBytes ram 6).take 42 = ramBytes ram 5 ++ (lanes 8 8 (ram 5)).take 2 := by
    have short : (ramBytes ram 5).length = 40 := length_flatMap_range (fun k => length_lanes _) 5
    have split : ramBytes ram 6 = ramBytes ram 5 ++ lanes 8 8 (ram 5) := by
      rw [ramBytes, List.range_succ, List.flatMap_append, List.flatMap_singleton]
      rfl
    rw [split, List.take_append, short, List.take_of_length_le (by rw [short]; decide)]
  refine ⟨((List.range more).map (5 + 1 + ·)).flatMap fun k =>
    lanes 8 8 (frameWord ram counter k), ?_⟩
  rw [onWire_frameBeats, count, List.range_add, List.flatMap_append, List.range_succ,
    List.flatMap_append, List.flatMap_singleton, first, fifth, header,
    ← List.append_assoc]

end Bytes

end K71GbE.TenGigEth
