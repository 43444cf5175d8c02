/-
This file proves the framing of `ten_gig_eth_packet_gen_simple`: what a start at rest
puts on the stream, however the receiver stalls it.

A frame is being sent, or its last word is taken and the packet counter is about to
count it, or the generator is at rest again. A receiver that is ready again and
again gets the whole frame.
-/

import K71GbE.Clocked.Progress
import K71GbE.TenGigEth.PacketGen

namespace K71GbE.TenGigEth

open Clocked

/-! ### The words of a frame -/

/-- The words are a frame of so many bytes: the RAM with the packet counter in word 5, `TLAST` with
the last word only, and a byte for every one of `TKEEP`, from lane 0 on. -/
structure Framed (ram : BitVec 11 → BitVec 64) (bytes : BitVec 16) (counter : BitVec 48)
    (beats : List TxBeat) : Prop where
  length : beats.length = (bytes.toNat + 7) / 8
  data : ∀ k (inside : k < beats.length), k ≠ 5 →
    beats[k].tdata = ram (BitVec.ofNat 11 (k % 2048))
  counted : ∀ inside : 5 < beats.length, beats[5].tdata = counter ++ (ram 5).extractLsb' 0 16
  last : ∀ k (inside : k < beats.length), beats[k].tlast = true ↔ k + 1 = beats.length
  contiguous : ∀ beat ∈ beats, ∃ n, 0 < n ∧ setBits beat.tkeep = List.range n
  total : (beats.map fun beat => (setBits beat.tkeep).length).sum = bytes.toNat

section Words

variable (ram : BitVec 11 → BitVec 64) (bytes : BitVec 16) (counter : BitVec 48)

/-- As many lanes are marked as bytes are left, up to all of them. -/
theorem setBits_frameBeat (k : Nat) :
    setBits (frameBeat ram bytes counter k).tkeep = List.range (min (bytes.toNat - k * 8) 8) := by
  have bound := bytes.isLt
  rw [frameBeat, setBits_txAxisTkeep, BitVec.toNat_ofNat, Nat.mod_eq_of_lt (by omega),
    List.take_range]

theorem framed_frameBeats : Framed ram bytes counter (frameBeats ram bytes counter) where
  length := length_frameBeats ram bytes counter
  data k inside other := by
    have period : BitVec.ofNat 11 (k % 2048) = BitVec.ofNat 11 k := by
      refine BitVec.eq_of_toNat_eq ?_
      rw [BitVec.toNat_ofNat, BitVec.toNat_ofNat, Nat.mod_mod]
    rw [getElem_frameBeats, period]
    exact if_neg other
  counted inside := by
    rw [getElem_frameBeats]
    show frameWord ram counter 5 = _
    rw [frameWord, if_pos rfl]
    rfl
  last k inside := by
    rw [frameBeats_last]
    exact decide_eq_true_iff
  contiguous beat member := by
    obtain ⟨k, small, rfl⟩ := List.mem_map.mp member
    refine ⟨_, ?_, setBits_frameBeat ram bytes counter k⟩
    have within := List.mem_range.mp small
    unfold beatCount at within
    omega
  total := by
    have wire := length_onWire ram bytes counter
    rw [onWire, List.length_flatMap] at wire
    rw [← wire]
    refine congrArg List.sum (List.map_congr_left fun beat _ => ?_)
    rw [TxBeat.bytes, List.length_map]

end Words

/-! ### The end of a frame -/

section Runs

variable {ram : BitVec 11 → BitVec 64} {bytes : BitVec 16} {counter : BitVec 48} {k : Nat}
  {state : PacketGen} {inputs : List GenInput}

/-- The last word of a frame is taken: the frame is about to be counted, or counted. -/
def Sent (counter : BitVec 48) (state : PacketGen) : Prop :=
  state.pktState = .s2 ∧ state.pktCtr = counter ∨ state.pktState = .s0 ∧ state.pktCtr = counter + 1

/-- At rest nothing changes without a start. -/
theorem clock_of_rest (ram : BitVec 11 → BitVec 64) {input : GenInput}
    (atRest : state.pktState = .s0) (quiet : input.txStart = false) :
    (state.clock ram input).pktState = .s0 ∧ (state.clock ram input).pktCtr = state.pktCtr := by
  unfold PacketGen.clock PacketGen.rising PacketGen.falling PacketGen.pktSm
  rw [atRest, quiet]
  exact ⟨rfl, rfl⟩

theorem run_of_rest (ram : BitVec 11 → BitVec 64) (atRest : state.pktState = .s0)
    (quiet : ∀ input ∈ inputs, input.txStart = false) :
    (run (PacketGen.clock ram) state inputs).pktState = .s0 ∧
      (run (PacketGen.clock ram) state inputs).pktCtr = state.pktCtr := by
  refine run_invariant (fun now : PacketGen => now.pktState = .s0 ∧ now.pktCtr = state.pktCtr)
    (fun now input same first => ?_) ⟨atRest, rfl⟩ (along_of_forall fun _ => quiet)
  obtain ⟨stays, kept⟩ := clock_of_rest ram same.1 first
  exact ⟨stays, kept.trans same.2⟩

/-- The clock after the last word counts the frame, and the generator rests. -/
theorem Sent.clock (sent : Sent counter state) (ram : BitVec 11 → BitVec 64) {input : GenInput}
    (quiet : input.txStart = false) :
    (state.clock ram input).pktState = .s0 ∧ (state.clock ram input).pktCtr = counter + 1 := by
  rcases sent with ⟨last, counted⟩ | ⟨atRest, counted⟩
  · unfold PacketGen.clock PacketGen.rising PacketGen.falling PacketGen.pktSm
    rw [last]
    exact ⟨rfl, congrArg (· + 1) counted⟩
  · obtain ⟨stays, kept⟩ := clock_of_rest ram atRest quiet
    exact ⟨stays, kept.trans counted⟩

/-- A frame goes on until as many words are taken as it has. -/
theorem Sending.run (sending : Sending ram bytes counter k state)
    (quiet : ∀ input ∈ inputs, input.txStart = false) :
    Sending ram bytes counter (k + inputs.countP GenInput.txAxisTready)
        (run (PacketGen.clock ram) state inputs) ∨
      beatCount bytes ≤ k + inputs.countP GenInput.txAxisTready ∧
        Sent counter (run (PacketGen.clock ram) state inputs) := by
  induction inputs using List.reverseRecOn with
  | nil => exact .inl sending
  | append_singleton front input inductionHypothesis =>
    have before := inductionHypothesis fun other member =>
      quiet other (List.mem_append_left _ member)
    have now := quiet input (List.mem_append_right _ List.mem_cons_self)
    rw [run_concat, List.countP_append, List.countP_singleton, ← Nat.add_assoc]
    rcases before with sending | ⟨enough, sent⟩
    · cases ready : input.txAxisTready with
      | false => exact .inl (sending.stalled ready)
      | true =>
        rcases Nat.lt_or_eq_of_le (Nat.succ_le_of_lt sending.within) with more | last
        · exact .inl (sending.next ready more)
        · refine .inr ⟨last.ge, .inl ⟨sending.framing.last ram ready last, ?_⟩⟩
          rw [clock_of_ready ram sending.sending ready]
          exact sending.counted
    · exact .inr ⟨enough.trans (Nat.le_add_right _ _), .inr (sent.clock ram now)⟩

end Runs

/-! ### A start at rest -/

section Start

variable {state : PacketGen} {start : GenInput} {inputs : Nat → GenInput}

theorem quiet_upTo (quiet : ∀ n, (inputs n).txStart = false) (n : Nat) :
    ∀ input ∈ upTo inputs n, input.txStart = false := by
  intro input member
  obtain ⟨i, _, rfl⟩ := List.mem_map.mp member
  exact quiet i

/-- What is taken after a start is as many words of the frame as the receiver is ready for, and they
are counted only when they are all taken. -/
theorem start_of_long (ram : BitVec 11 → BitVec 64) (atRest : state.pktState = .s0)
    (started : start.txStart = true) (long : 14 ≤ start.txBytes.toNat)
    (quiet : ∀ n, (inputs n).txStart = false) (n : Nat) :
    let sent := log (PacketGen.clock ram) PacketGen.transferred state (start :: upTo inputs n)
    let counter := (run (PacketGen.clock ram) state (start :: upTo inputs n)).pktCtr
    let beats := frameBeats ram start.txBytes state.pktCtr
    sent <+: beats ∧ (sent ≠ beats → counter = state.pktCtr) := by
  have transferred := log_start ram atRest started long (quiet_upTo quiet n)
  intro sent counter beats
  constructor
  · rw [show sent = _ from transferred]
    exact List.take_prefix _ _
  · intro unfinished
    rcases (sending_of_start ram atRest started long).run (quiet_upTo quiet n) with
      sending | ⟨enough, _⟩
    · exact sending.counted
    · refine absurd (transferred.trans (List.take_of_length_le ?_)) unfinished
      rw [length_frameBeats]
      rwa [Nat.zero_add] at enough

/-- A clock after the last word is taken, the frame is out and counted. -/
theorem start_of_enough (ram : BitVec 11 → BitVec 64) (atRest : state.pktState = .s0)
    (started : start.txStart = true) (long : 14 ≤ start.txBytes.toNat)
    (quiet : ∀ n, (inputs n).txStart = false) {n : Nat}
    (enough : ∀ m, n ≤ m →
      beatCount start.txBytes ≤ (upTo inputs m).countP GenInput.txAxisTready) (m : Nat) :
    log (PacketGen.clock ram) PacketGen.transferred state (start :: upTo inputs (n + m + 1)) =
        frameBeats ram start.txBytes state.pktCtr ∧
      (run (PacketGen.clock ram) state (start :: upTo inputs (n + m + 1))).pktCtr =
        state.pktCtr + 1 := by
  constructor
  · rw [log_start ram atRest started long (quiet_upTo quiet _), List.take_of_length_le]
    rw [length_frameBeats]
    exact enough _ (by omega)
  · have reached := enough (n + m) (Nat.le_add_right _ _)
    rcases (sending_of_start ram atRest started long).run (quiet_upTo quiet (n + m)) with
      sending | ⟨_, taken⟩
    · have within := sending.within
      omega
    · rw [run_cons, upTo_succ, run_concat]
      exact (taken.clock ram (quiet (n + m))).2

/-- A start of less than 14 bytes sends nothing and counts nothing. -/
theorem start_of_short (ram : BitVec 11 → BitVec 64) (atRest : state.pktState = .s0)
    (started : start.txStart = true) (short : start.txBytes.toNat < 14)
    (quiet : ∀ n, (inputs n).txStart = false) (n : Nat) :
    log (PacketGen.clock ram) PacketGen.transferred state (start :: upTo inputs n) = [] ∧
      (run (PacketGen.clock ram) state (start :: upTo inputs n)).pktCtr = state.pktCtr := by
  have low : start.txBytes < 14 := BitVec.lt_def.mpr short
  have first := clock_of_start ram atRest started
  rw [if_pos low] at first
  have atRest' : (state.clock ram start).pktState = .s0 := by rw [first]
  have counted : (state.clock ram start).pktCtr = state.pktCtr := by rw [first]
  constructor
  · rw [log_cons, transferred_of_other start (by rw [atRest]; decide), List.nil_append]
    exact log_of_other ram (quiet_upTo quiet n) (by rw [atRest']; decide)
  · exact (run_of_rest ram atRest' (quiet_upTo quiet n)).2.trans counted

/-- A start at rest sends one frame of so many bytes, and counts it when the last word is taken; of
less than 14 bytes it sends nothing. -/
theorem start_framed (ram : BitVec 11 → BitVec 64) (atRest : state.pktState = .s0)
    (started : start.txStart = true) (quiet : ∀ n, (inputs n).txStart = false) :
    let sent := fun n =>
      log (PacketGen.clock ram) PacketGen.transferred state (start :: upTo inputs n)
    let counter := fun n => (run (PacketGen.clock ram) state (start :: upTo inputs n)).pktCtr
    (14 ≤ start.txBytes.toNat →
      ∃ beats, Framed ram start.txBytes state.pktCtr beats ∧
        (∀ n, sent n <+: beats ∧ (sent n ≠ beats → counter n = state.pktCtr)) ∧
        ((∀ n, ∃ m, n ≤ m ∧ (inputs m).txAxisTready = true) →
          ∃ n, ∀ m, n ≤ m → sent m = beats ∧ counter m = state.pktCtr + 1)) ∧
    (start.txBytes.toNat < 14 → ∀ n, sent n = [] ∧ counter n = state.pktCtr) := by
  intro sent counter
  refine ⟨fun long => ?_, fun short n => start_of_short ram atRest started short quiet n⟩
  refine ⟨frameBeats ram start.txBytes state.pktCtr,
    framed_frameBeats ram start.txBytes state.pktCtr,
    fun n => start_of_long ram atRest started long quiet n, fun ready => ?_⟩
  obtain ⟨n, enough⟩ := exists_countP_le ready (beatCount start.txBytes)
  refine ⟨n + 1, fun m later => ?_⟩
  obtain ⟨gap, rfl⟩ := Nat.exists_eq_add_of_le later
  rw [Nat.add_right_comm]
  exact start_of_enough ram atRest started long quiet enough gap

/-- A frame of 60 bytes, with a receiver that is ready at every third clock. -/
theorem sixty_bytes_framed :
    ∃ beats, Framed (BitVec.setWidth 64) 60 0 beats ∧
      ∃ n, ∀ m, n ≤ m →
        log (PacketGen.clock (BitVec.setWidth 64)) PacketGen.transferred .idle
            (⟨true, 60, false⟩ :: upTo (fun i => ⟨false, 0, decide (i % 3 = 0)⟩) m) = beats ∧
          (run (PacketGen.clock (BitVec.setWidth 64)) .idle
            (⟨true, 60, false⟩ :: upTo (fun i => ⟨false, 0, decide (i % 3 = 0)⟩) m)).pktCtr =
              1 := by
  obtain ⟨beats, framed, _, sent⟩ :=
    (@start_framed .idle ⟨true, 60, false⟩ (fun i => ⟨false, 0, decide (i % 3 = 0)⟩)
      (BitVec.setWidth 64) rfl rfl fun _ => rfl).1 (by decide)
  exact ⟨beats, framed, sent fun n => ⟨3 * n, by omega, decide_eq_true (by omega)⟩⟩

end Start

end K71GbE.TenGigEth
