/-
This file models `uartio`, an asynchronous serial line with eight data bits, and says what
its sender and its receiver do with one byte.

Both count sixteen ticks to a bit. The receiver goes active at any clock at which the
line is low, and samples it in the middle of its count. The ticks come from `tickgen`
and may be any clocks. The counters are not reset; both are cleared when their side is
idle.
-/

import K71GbE.Clocked.Machine
import K71GbE.Clocked.ShiftRegister

namespace K71GbE.Uart

open Clocked

/-- `fsm_state_t`. -/
inductive FsmState where
  | idle | active
deriving DecidableEq, Repr

/-- `rx_state_t`. -/
structure RxState where
  fsmState : FsmState
  counter : BitVec 4
  bits : BitVec 8
  nbits : BitVec 4
  enable : Bool
deriving DecidableEq, Repr

/-- `tx_state_t`. -/
structure TxState where
  fsmState : FsmState
  counter : BitVec 4
  bits : BitVec 9
  nbits : BitVec 4
  ready : Bool
deriving DecidableEq, Repr

/-- The registers. -/
structure Uartio where
  rx : RxState
  tx : TxState
deriving DecidableEq, Repr

/-- The inputs at a clock, with the tick of `tickgen`. -/
structure Input where
  sample : Bool
  rxPin : Bool
  txEn : Bool
  txData : BitVec 8
deriving DecidableEq, Repr

/-- `rx_process`. -/
def RxState.next (rx : RxState) (sample rxPin : Bool) : RxState :=
  match rx.fsmState with
  | .idle =>
    { counter := 0
      bits := 0
      nbits := 0
      enable := false
      fsmState := if rxPin then .idle else .active }
  | .active =>
    if sample then
      let sampled :=
        if rx.counter = 8 then
          -- the middle of the counter cycle
          if rx.nbits = 9 then { rx with fsmState := .idle, enable := rxPin }
          else { rx with bits := shiftDown rxPin rx.bits, nbits := rx.nbits + 1 }
        else rx
      { sampled with counter := rx.counter + 1 }
    else rx

/-- `tx_process`. -/
def TxState.next (tx : TxState) (sample txEn : Bool) (txData : BitVec 8) : TxState :=
  match tx.fsmState with
  | .idle =>
    if txEn then
      { bits := txData ++ 0#1
        nbits := 0xa
        counter := 0
        fsmState := .active
        ready := false }
    else ⟨.idle, 0, BitVec.allOnes 9, 0, true⟩
  | .active =>
    if sample then
      let sent :=
        if tx.counter = 15 then
          if tx.nbits = 0 then ⟨.idle, 0, BitVec.allOnes 9, 0, true⟩
          else { tx with bits := shiftDown true tx.bits, nbits := tx.nbits - 1 }
        else tx
      { sent with counter := tx.counter + 1 }
    else tx

namespace Uartio

/-- A clock. -/
def step (state : Uartio) (input : Input) : Uartio :=
  ⟨state.rx.next input.sample input.rxPin, state.tx.next input.sample input.txEn input.txData⟩

/-- `RESET` leaves the counters alone. -/
def reset (state : Uartio) : Uartio where
  rx := { state.rx with fsmState := .idle, bits := 0, nbits := 0, enable := false }
  tx :=
    { state.tx with fsmState := .idle, bits := BitVec.allOnes 9, nbits := 0, ready := true }

/-- `TX_PIN`. -/
def txPin (state : Uartio) : Bool := state.tx.bits.getLsbD 0

/-- The byte that `RX_RDY` validates. -/
def received (state : Uartio) : List (BitVec 8) := if state.rx.enable then [state.rx.bits] else []

/-- The byte that is offered while `TX_RDY` is high. -/
def accepted (state : Uartio) (input : Input) : List (BitVec 8) :=
  if input.txEn && state.tx.ready then [input.txData] else []

end Uartio

/-! ### Counters of four bits -/

/-- A counter of the ticks of a bit. -/
theorem toNat_counter_next {counter : BitVec 4} {ticks : Nat}
    (now : counter.toNat = ticks % 16) : (counter + 1).toNat = (ticks + 1) % 16 := by
  rw [BitVec.toNat_add, now]
  show (ticks % 16 + 1) % 16 = _
  omega

theorem eq_iff_of_toNat {x : BitVec 4} {n : Nat} (value : x.toNat = n) (y : BitVec 4) :
    x = y ↔ n = y.toNat := by
  rw [← value]
  exact BitVec.toNat_inj.symm

/-! ### The sender -/

/-- The sender rests. -/
structure TxState.Resting (tx : TxState) : Prop where
  idle : tx.fsmState = .idle
  bits : tx.bits = BitVec.allOnes 9
  ready : tx.ready = true

/-- So many ticks have come since the sender took a byte. -/
structure TxState.Sending (byte : BitVec 8) (ticks : Nat) (tx : TxState) : Prop where
  within : ticks < 176
  active : tx.fsmState = .active
  counter : tx.counter.toNat = ticks % 16
  nbits : tx.nbits.toNat = 10 - ticks / 16
  window : Window (asyncLine byte) (ticks / 16) tx.bits
  busy : tx.ready = false

section Sender

variable {tx : TxState} {byte : BitVec 8} {ticks : Nat}

theorem TxState.Resting.next (resting : tx.Resting) (sample : Bool) (txData : BitVec 8) :
    (tx.next sample false txData).Resting := by
  rw [TxState.next, resting.idle]
  exact ⟨rfl, rfl, rfl⟩

theorem TxState.Resting.start (resting : tx.Resting) (sample : Bool) (txData : BitVec 8) :
    TxState.Sending txData 0 (tx.next sample true txData) := by
  rw [TxState.next, resting.idle]
  exact ⟨by decide, rfl, rfl, rfl, window_append_zero txData, rfl⟩

theorem TxState.Sending.wait (sending : tx.Sending byte ticks) (txEn : Bool) (txData : BitVec 8) :
    tx.next false txEn txData = tx := by
  rw [TxState.next, sending.active]
  rfl

/-- A tick shifts the register when sixteen have come, and the sender rests when eleven bits have
been on the line. -/
theorem TxState.Sending.tick (sending : tx.Sending byte ticks) (txEn : Bool) (txData : BitVec 8) :
    let next := tx.next true txEn txData
    ticks < 175 ∧ TxState.Sending byte (ticks + 1) next ∨ ticks = 175 ∧ next.Resting := by
  obtain ⟨within, active, counter, nbits, window, busy⟩ := sending
  have full : tx.counter = 15 ↔ ticks % 16 = 15 := eq_iff_of_toNat counter 15
  have empty : tx.nbits = 0 ↔ 10 - ticks / 16 = 0 := eq_iff_of_toNat nbits 0
  have counted := toNat_counter_next counter
  rw [TxState.next, active]
  simp only [if_true]
  by_cases last : ticks = 175
  · refine .inr ⟨last, ?_⟩
    rw [if_pos (full.mpr (by omega)), if_pos (empty.mpr (by omega))]
    exact ⟨rfl, rfl, rfl⟩
  · refine .inl ⟨by omega, ?_⟩
    by_cases wraps : ticks % 16 = 15
    · rw [if_pos (full.mpr wraps), if_neg (fun zero => by have := empty.mp zero; omega)]
      have slot : (ticks + 1) / 16 = ticks / 16 + 1 := by omega
      refine ⟨by omega, rfl, counted, ?_, ?_, busy⟩
      · show (tx.nbits - 1#4).toNat = _
        rw [BitVec.toNat_sub, nbits, slot]
        show (2 ^ 4 - 1 + (10 - ticks / 16)) % 2 ^ 4 = _
        omega
      · rw [slot]
        exact window.shiftDown (asyncLine_stop byte (by omega)).symm
    · rw [if_neg (mt full.mp wraps)]
      have slot : (ticks + 1) / 16 = ticks / 16 := by omega
      exact ⟨by omega, active, counted, slot ▸ nbits, slot ▸ window, busy⟩

/-- The level that the sender puts on the line. -/
theorem TxState.Sending.pin (sending : tx.Sending byte ticks) :
    tx.bits.getLsbD 0 = asyncLine byte (ticks / 16) :=
  sending.window 0 (by decide)

theorem TxState.Resting.pin (resting : tx.Resting) : tx.bits.getLsbD 0 = true := by
  rw [resting.bits]
  rfl

end Sender

/-! ### The receiver -/

/-- The receiver waits for a start bit. -/
structure RxState.Waiting (rx : RxState) : Prop where
  idle : rx.fsmState = .idle
  enable : rx.enable = false

/-- So many ticks have come since the receiver saw the start bit. -/
structure RxState.Sampling (byte : BitVec 8) (ticks : Nat) (rx : RxState) : Prop where
  within : ticks ≤ 152
  active : rx.fsmState = .active
  counter : rx.counter.toNat = ticks % 16
  nbits : rx.nbits.toNat = (ticks + 7) / 16
  window : Window (behind 8 (asyncLine byte)) ((ticks + 7) / 16) rx.bits
  enable : rx.enable = false

section Receiver

variable {rx : RxState} {byte : BitVec 8} {ticks : Nat}

/-- At a high line an idle receiver goes on waiting. -/
theorem RxState.next_high (idle : rx.fsmState = .idle) (sample : Bool) :
    (rx.next sample true).Waiting := by
  rw [RxState.next, idle]
  exact ⟨rfl, rfl⟩

/-- At a low line it goes active. -/
theorem RxState.Waiting.start (waiting : rx.Waiting) (byte : BitVec 8) (sample : Bool) :
    RxState.Sampling byte 0 (rx.next sample false) := by
  rw [RxState.next, waiting.idle]
  exact ⟨by decide, rfl, rfl, rfl, window_behind_zero, rfl⟩

theorem RxState.Sampling.wait (sampling : rx.Sampling byte ticks) (rxPin : Bool) :
    rx.next false rxPin = rx := by
  rw [RxState.next, sampling.active]
  rfl

/-- A tick samples the line in the middle of a bit, and the tenth bit ends the byte. -/
theorem RxState.Sampling.tick (sampling : rx.Sampling byte ticks) {rxPin : Bool}
    (level : ticks % 16 = 8 → rxPin = asyncLine byte (ticks / 16)) :
    let next := rx.next true rxPin
    ticks < 152 ∧ RxState.Sampling byte (ticks + 1) next ∨
      ticks = 152 ∧ next.fsmState = .idle ∧ next.enable = true ∧ next.bits = byte := by
  obtain ⟨within, active, counter, nbits, window, enable⟩ := sampling
  have middle : rx.counter = 8 ↔ ticks % 16 = 8 := eq_iff_of_toNat counter 8
  have whole : rx.nbits = 9 ↔ (ticks + 7) / 16 = 9 := eq_iff_of_toNat nbits 9
  have counted := toNat_counter_next counter
  rw [RxState.next, active]
  simp only [if_true]
  by_cases last : ticks = 152
  · refine .inr ⟨last, ?_⟩
    have stop : rxPin = true := (level (by omega)).trans (asyncLine_stop byte (by omega))
    rw [if_pos (middle.mpr (by omega)), if_pos (whole.mpr (by omega))]
    have nine : (ticks + 7) / 16 = 8 + 1 := by omega
    exact ⟨rfl, stop, eq_of_window (nine ▸ window)⟩
  · refine .inl ⟨by omega, ?_⟩
    by_cases samples : ticks % 16 = 8
    · have slot : (ticks + 1 + 7) / 16 = (ticks + 7) / 16 + 1 := by omega
      rw [if_pos (middle.mpr samples), if_neg (mt whole.mp (by omega))]
      refine ⟨by omega, rfl, counted, ?_, ?_, enable⟩
      · show (rx.nbits + 1#4).toNat = _
        rw [BitVec.toNat_add, nbits, slot]
        show ((ticks + 7) / 16 + 1) % 2 ^ 4 = _
        omega
      · rw [slot]
        refine window.shiftDown ?_
        have same : (ticks + 7) / 16 = ticks / 16 := by omega
        rw [level samples, same, Nat.add_comm, behind_add]
    · have slot : (ticks + 1 + 7) / 16 = (ticks + 7) / 16 := by omega
      rw [if_neg (mt middle.mp samples)]
      exact ⟨by omega, active, counted, slot ▸ nbits, slot ▸ window, enable⟩

end Receiver

end K71GbE.Uart
