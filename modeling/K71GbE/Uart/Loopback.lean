/-
This file proves that a `uartio` whose line is connected back to itself receives what it
sends.

The receiver sees the start bit in the clock after the byte was taken, so of the
ticks that the sender counts it misses at most the first one, and its middle of a bit
is the eighth or the ninth tick of the sender's. It is done before the sender is, and
waits at a high line for the next start bit.
-/

import K71GbE.Clocked.Progress
import K71GbE.Uart.Uartio

namespace K71GbE.Uart

open Clocked

/-- What the client does at a clock, with the tick. -/
structure Offer where
  sample : Bool
  txEn : Bool
  txData : BitVec 8
deriving DecidableEq, Repr

/-- The inputs with `TX_PIN` connected to `RX_PIN`. -/
def Offer.connected (offer : Offer) (state : Uartio) : Input :=
  ⟨offer.sample, state.txPin, offer.txEn, offer.txData⟩

namespace Uartio

/-- A clock of the loopback. -/
def loop (state : Uartio) (offer : Offer) : Uartio := state.step (offer.connected state)

/-- The byte accepted at a clock. -/
def acceptedOf (state : Uartio) (offer : Offer) : List (BitVec 8) :=
  state.accepted (offer.connected state)

/-- The byte received at a clock. -/
def receivedOf (state : Uartio) (_ : Offer) : List (BitVec 8) := state.received

end Uartio

/-! ### The byte on the line -/

/-- How far the receiver is with the byte that the sender counts the ticks of, and whether the byte
was received. -/
inductive Following (byte : BitVec 8) (ticks : Nat) (rx : RxState) : Bool → Prop where
  | started (waiting : rx.Waiting) (first : ticks = 0) : Following byte ticks rx false
  | sampling {behind : Nat} (sampling : rx.Sampling byte behind)
      (lag : ticks = behind ∨ ticks = behind + 1) : Following byte ticks rx false
  | done (idle : rx.fsmState = .idle) (enable : rx.enable = true) (bits : rx.bits = byte)
      (late : 153 ≤ ticks) (soon : ticks ≤ 154) : Following byte ticks rx false
  | waiting (waiting : rx.Waiting) (late : 153 ≤ ticks) : Following byte ticks rx true

/-- Nothing is on the line and all bytes are received, or the last one that was accepted is on the
line. -/
inductive Loop (state : Uartio) (accepted received : List (BitVec 8)) : Prop where
  | resting (tx : state.tx.Resting) (rx : state.rx.Waiting) (all : received = accepted)
  | sending {byte : BitVec 8} {ticks : Nat} {earlier : List (BitVec 8)} {got : Bool}
      (tx : state.tx.Sending byte ticks) (rx : Following byte ticks state.rx got)
      (accepted : accepted = earlier ++ [byte])
      (received : received = if got then earlier ++ [byte] else earlier)

section Steps

variable {state : Uartio} {byte : BitVec 8} {ticks : Nat} {got : Bool} {rx : RxState}

/-- A clock without a tick. -/
theorem Following.wait (following : Following byte ticks rx got) :
    Following byte ticks (rx.next false (asyncLine byte (ticks / 16))) (got || rx.enable) := by
  cases following with
  | started waiting first =>
    rw [waiting.enable, first]
    exact .sampling (waiting.start byte false) (.inl rfl)
  | sampling sampling lag =>
    rw [sampling.wait, sampling.enable]
    exact .sampling sampling lag
  | done idle enable _ late _ =>
    rw [asyncLine_stop byte (by omega), enable]
    exact .waiting (RxState.next_high idle false) late
  | waiting waiting late =>
    rw [asyncLine_stop byte (by omega)]
    exact .waiting (RxState.next_high waiting.idle false) late

/-- A clock with a tick. -/
theorem Following.tick (following : Following byte ticks rx got) :
    Following byte (ticks + 1) (rx.next true (asyncLine byte (ticks / 16))) (got || rx.enable) := by
  cases following with
  | started waiting first =>
    rw [waiting.enable, first]
    exact .sampling (waiting.start byte true) (.inr rfl)
  | @sampling behind sampling lag =>
    rw [sampling.enable]
    have level : behind % 16 = 8 → asyncLine byte (ticks / 16) = asyncLine byte (behind / 16) := by
      intro middle
      have slot : ticks / 16 = behind / 16 := by omega
      rw [slot]
    rcases sampling.tick level with ⟨_, sampling⟩ | ⟨last, idle, enable, bits⟩
    · exact .sampling sampling (by omega)
    · exact .done idle enable bits (by omega) (by omega)
  | done idle enable _ late _ =>
    rw [asyncLine_stop byte (by omega), enable]
    exact .waiting (RxState.next_high idle true) (by omega)
  | waiting waiting late =>
    rw [asyncLine_stop byte (by omega)]
    exact .waiting (RxState.next_high waiting.idle true) (by omega)

/-- The byte is received when the sender comes to rest. -/
theorem Following.ended (following : Following byte 176 rx got) : got = true ∧ rx.Waiting := by
  cases following with
  | started _ first => cases first
  | sampling sampling lag =>
    have within := sampling.within
    omega
  | done _ _ _ _ soon => exact absurd soon (by decide)
  | waiting waiting _ => exact ⟨rfl, waiting⟩

/-- What is received at a clock is the byte that is on the line. -/
theorem Following.received (following : Following byte ticks state.rx got)
    (earlier : List (BitVec 8)) :
    (if got then earlier ++ [byte] else earlier) ++ state.received =
      if got || state.rx.enable then earlier ++ [byte] else earlier := by
  unfold Uartio.received
  cases following with
  | started waiting _ => simp [waiting.enable]
  | sampling sampling _ => simp [sampling.enable]
  | done _ enable bits _ _ => simp [enable, bits]
  | waiting waiting _ => simp [waiting.enable]

/-- A clock keeps to the bytes accepted and received. -/
theorem Loop.step {accepted received : List (BitVec 8)} (loop : Loop state accepted received)
    (offer : Offer) :
    Loop (state.loop offer) (accepted ++ state.acceptedOf offer)
      (received ++ state.receivedOf offer) := by
  cases loop with
  | resting tx rx all =>
    have nothing : state.receivedOf offer = [] :=
      if_neg (by rw [rx.enable]; exact Bool.false_ne_true)
    have waiting : (state.rx.next offer.sample (state.tx.bits.getLsbD 0)).Waiting := by
      rw [tx.pin]
      exact RxState.next_high rx.idle _
    rw [nothing, List.append_nil, all]
    have offered : state.acceptedOf offer = if offer.txEn then [offer.txData] else [] := by
      simp [Uartio.acceptedOf, Uartio.accepted, Offer.connected, tx.ready]
    obtain ⟨sample, txEn, txData⟩ := offer
    cases txEn with
    | false =>
      rw [offered, if_neg Bool.false_ne_true, List.append_nil]
      exact .resting (tx.next sample txData) waiting rfl
    | true =>
      rw [offered, if_pos rfl]
      exact .sending (tx.start sample txData) (.started waiting rfl) rfl rfl
  | @sending byte ticks earlier got tx rx accepted received =>
    have refused : state.acceptedOf offer = [] := by
      simp [Uartio.acceptedOf, Uartio.accepted, tx.busy]
    rw [refused, List.append_nil, received]
    have now := rx.received earlier
    obtain ⟨sample, txEn, txData⟩ := offer
    have line : state.loop ⟨sample, txEn, txData⟩ =
        ⟨state.rx.next sample (asyncLine byte (ticks / 16)), state.tx.next sample txEn txData⟩ := by
      rw [← tx.pin]
      rfl
    rw [line]
    cases sample with
    | false =>
      rw [tx.wait]
      exact .sending tx rx.wait accepted now
    | true =>
      rcases tx.tick txEn txData with ⟨_, sending⟩ | ⟨rfl, resting⟩
      · exact .sending sending rx.tick accepted now
      · obtain ⟨whole, waiting⟩ := rx.tick.ended
        refine .resting resting waiting ?_
        rw [accepted]
        exact now.trans (if_pos whole)

end Steps

/-! ### Runs -/

theorem Loop.run {state : Uartio} {accepted received : List (BitVec 8)}
    (loop : Loop state accepted received) (offers : List Offer) :
    Loop (run Uartio.loop state offers) (accepted ++ log Uartio.loop Uartio.acceptedOf state offers)
      (received ++ log Uartio.loop Uartio.receivedOf state offers) := by
  induction offers using List.reverseRecOn with
  | nil => simpa using loop
  | append_singleton front offer inductionHypothesis =>
    rw [run_concat, log_concat, log_concat, ← List.append_assoc, ← List.append_assoc]
    exact inductionHypothesis.step offer

theorem loop_reset (state : Uartio) : Loop state.reset [] [] :=
  .resting ⟨rfl, rfl, rfl⟩ ⟨rfl, rfl⟩ rfl

/-- What was received is a beginning of what was accepted, and all of it while `TX_RDY` is high. -/
theorem Loop.front {state : Uartio} {accepted received : List (BitVec 8)}
    (loop : Loop state accepted received) :
    received <+: accepted ∧ (state.tx.ready = true → received = accepted) := by
  cases loop with
  | resting tx rx all => exact ⟨all ▸ List.prefix_refl _, fun _ => all⟩
  | @sending byte ticks earlier got tx rx sent came =>
    refine ⟨?_, fun ready => absurd ready (by rw [tx.busy]; exact Bool.false_ne_true)⟩
    rw [sent, came]
    split_ifs
    · exact List.prefix_refl _
    · exact List.prefix_append _ _

section Schedule

variable (state : Uartio) (offers : Nat → Offer)

/-- The loopback at clock `n` after a reset, and what was accepted and received before it. -/
def before (n : Nat) : Uartio := run Uartio.loop state.reset (upTo offers n)

def acceptedBefore (n : Nat) : List (BitVec 8) :=
  log Uartio.loop Uartio.acceptedOf state.reset (upTo offers n)

def receivedBefore (n : Nat) : List (BitVec 8) :=
  log Uartio.loop Uartio.receivedOf state.reset (upTo offers n)

theorem before_succ (n : Nat) :
    before state offers (n + 1) = (before state offers n).loop (offers n) := by
  rw [before, upTo_succ, run_concat, before]

theorem loop_before (n : Nat) :
    Loop (before state offers n) (acceptedBefore state offers n)
      (receivedBefore state offers n) := by
  simpa [before, acceptedBefore, receivedBefore] using (loop_reset state).run (upTo offers n)

variable {offers}

/-- A sender that has a byte is ready again when its ticks have come. -/
theorem ready_of_sending (ticking : ∀ n, ∃ m, n ≤ m ∧ (offers m).sample = true) {byte : BitVec 8}
    (left : Nat) {ticks n : Nat} (count : ticks + left = 176)
    (sending : (before state offers n).tx.Sending byte ticks) :
    ∃ m, n ≤ m ∧ (before state offers m).tx.ready = true := by
  induction left generalizing ticks n with
  | zero => exact absurd sending.within (by omega)
  | succ left inductionHypothesis =>
    obtain ⟨m, later, sending, tick⟩ := exists_waiting_event
      (fun m => (before state offers m).tx.Sending byte ticks) sending
      (fun m sending silent => by
        rw [before_succ]
        show TxState.Sending byte ticks (TxState.next _ (offers m).sample _ _)
        rwa [Bool.eq_false_of_not_eq_true silent, sending.wait]) (ticking n)
    have next := sending.tick (offers m).txEn (offers m).txData
    have after : (before state offers (m + 1)).tx =
        (before state offers m).tx.next true (offers m).txEn (offers m).txData := by
      rw [before_succ, ← tick]
      rfl
    rcases next with ⟨_, sending⟩ | ⟨_, resting⟩
    · obtain ⟨last, behind, ready⟩ := inductionHypothesis (n := m + 1) (by omega) (after ▸ sending)
      exact ⟨last, by omega, ready⟩
    · exact ⟨m + 1, by omega, by rw [after]; exact resting.ready⟩

/-- The bytes received are those accepted, one clock of `RX_RDY` for each and in their order: at
every clock they are a beginning, again and again they are all of them, and when no more bytes are
accepted they stay all of them. -/
theorem loopback (ticking : ∀ n, ∃ m, n ≤ m ∧ (offers m).sample = true) :
    (∀ n, receivedBefore state offers n <+: acceptedBefore state offers n) ∧
      (∀ n, ∃ m, n ≤ m ∧ receivedBefore state offers m = acceptedBefore state offers m) ∧
      ∀ n bytes, (∀ m, n ≤ m → acceptedBefore state offers m = bytes) →
        ∃ k, ∀ m, k ≤ m → receivedBefore state offers m = bytes := by
  have front : ∀ n, receivedBefore state offers n <+: acceptedBefore state offers n :=
    fun n => (loop_before state offers n).front.1
  have whole : ∀ n, ∃ m, n ≤ m ∧ receivedBefore state offers m = acceptedBefore state offers m := by
    intro n
    obtain ⟨m, later, ready⟩ : ∃ m, n ≤ m ∧ (before state offers m).tx.ready = true := by
      cases loop_before state offers n with
      | resting tx _ _ => exact ⟨n, le_rfl, tx.ready⟩
      | @sending byte ticks _ _ tx _ _ _ =>
        exact ready_of_sending state ticking (176 - ticks) (by have := tx.within; omega) tx
    exact ⟨m, later, (loop_before state offers m).front.2 ready⟩
  refine ⟨front, whole, fun n bytes settled => ?_⟩
  obtain ⟨k, later, all⟩ := whole n
  refine ⟨k, fun m after => ?_⟩
  have grown : receivedBefore state offers k <+: receivedBefore state offers m :=
    log_upTo_prefix Uartio.loop Uartio.receivedOf state.reset offers after
  have most := front m
  rw [settled m (later.trans after)] at most
  rw [all, settled k later] at grown
  exact most.eq_of_length_le grown.length_le

/-- Two bytes, the second one offered until it is accepted, with a tick at every second clock. -/
theorem two_bytes_loopback :
    ∃ k, ∀ m, k ≤ m →
      receivedBefore ⟨⟨.idle, 9, 0, 0, false⟩, ⟨.idle, 5, 0, 0, true⟩⟩
        (fun n => ⟨decide (n % 2 = 0), decide (2 ≤ n ∧ n < 356), if n = 2 then 0x5a else 0xc3⟩) m =
          [0x5a, 0xc3] := by
  refine (loopback _ fun n => ⟨2 * n, by omega, decide_eq_true (by omega)⟩).2.2 356 _
    fun m later => ?_
  obtain ⟨gap, rfl⟩ := Nat.exists_eq_add_of_le later
  induction gap with
  | zero => decide +kernel
  | succ gap inductionHypothesis =>
    rw [← Nat.add_assoc, acceptedBefore, upTo_succ, log_concat, ← acceptedBefore,
      inductionHypothesis (Nat.le_add_right _ _)]
    simp [Uartio.acceptedOf, Uartio.accepted, Offer.connected]

end Schedule

end K71GbE.Uart
