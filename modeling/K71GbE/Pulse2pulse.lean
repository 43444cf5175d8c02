/-
This file models `pulse2pulse`, the converter that carries a pulse from one
clock domain into another as a pulse of one output clock.

The two processes are clocked separately: an edge of `in_clk`, an edge of
`out_clk`, or both at once. Every register reads the values from before the
edge, so simultaneous edges need no order.
-/

import K71GbE.Clocked.Machine

namespace K71GbE

/-- The registers of `in_proc`. -/
structure InProc where
  inSet : Bool
  inReset : Bool
  inResetPrev : Bool
  inResetPrev2 : Bool
deriving DecidableEq, Repr

/-- The registers of `out_proc`. -/
structure OutProc where
  outSet : Bool
  outSetPrev : Bool
  outSetPrev2 : Bool
  outreset : Bool
  pulseout : Bool
deriving DecidableEq, Repr

structure Pulse2pulse where
  inProc : InProc
  outProc : OutProc
deriving DecidableEq, Repr

namespace Pulse2pulse

/-- Both processes in reset: every register is low. -/
def reset : Pulse2pulse where
  inProc := ⟨false, false, false, false⟩
  outProc := ⟨false, false, false, false, false⟩

/-- The registers of `in_proc` after an edge of `in_clk`. -/
def nextIn (pulse : Pulse2pulse) (pulsein : Bool) : InProc where
  inSet :=
    if pulse.inProc.inResetPrev && pulse.inProc.inResetPrev2 then false
    else if pulsein then true
    else pulse.inProc.inSet
  inReset := pulse.outProc.outreset
  inResetPrev := pulse.inProc.inReset
  inResetPrev2 := pulse.inProc.inResetPrev

/-- The registers of `out_proc` after an edge of `out_clk`. -/
def nextOut (pulse : Pulse2pulse) : OutProc where
  pulseout := pulse.outProc.outSetPrev && !pulse.outProc.outSetPrev2
  outreset :=
    if pulse.outProc.outSetPrev && pulse.outProc.outSetPrev2 then true
    else if !pulse.outProc.outSetPrev && !pulse.outProc.outSetPrev2 then false
    else pulse.outProc.outreset
  outSet := pulse.inProc.inSet
  outSetPrev := pulse.outProc.outSet
  outSetPrev2 := pulse.outProc.outSetPrev

/-- The state in force while `rst` has the given level; the reset is asynchronous. -/
def settle (pulse : Pulse2pulse) (rst : Bool) : Pulse2pulse := if rst then reset else pulse

/-- One instant at which `in_clk`, `out_clk` or both rise. -/
def clock (inClk outClk rst pulsein : Bool) (pulse : Pulse2pulse) : Pulse2pulse :=
  if rst then reset
  else
    { inProc := if inClk then pulse.nextIn pulsein else pulse.inProc
      outProc := if outClk then pulse.nextOut else pulse.outProc }

/-- `inbusy`: a request is pending or its acknowledge has not been taken back. -/
def inbusy (pulse : Pulse2pulse) : Bool := pulse.inProc.inSet || pulse.inProc.inResetPrev

/-- No request, acknowledge or pulse is anywhere in the two chains. The last register of the
acknowledge chain is left out: alone it changes nothing. -/
def Quiescent (pulse : Pulse2pulse) : Prop :=
  pulse.inProc.inSet = false ∧ pulse.inProc.inReset = false ∧
    pulse.inProc.inResetPrev = false ∧
    pulse.outProc = ⟨false, false, false, false, false⟩

instance (pulse : Pulse2pulse) : Decidable pulse.Quiescent :=
  inferInstanceAs (Decidable (_ ∧ _ ∧ _ ∧ _))

theorem quiescent_reset : reset.Quiescent := ⟨rfl, rfl, rfl, rfl⟩

/-- A quiescent converter drives no pulse. -/
theorem Quiescent.pulseout {pulse : Pulse2pulse} (quiescent : pulse.Quiescent) :
    pulse.outProc.pulseout = false := by
  rw [quiescent.2.2.2]

/-- From the next common edge on, a quiescent converter cannot be told from one in reset. -/
theorem Quiescent.clock_eq {pulse : Pulse2pulse} (quiescent : pulse.Quiescent)
    (rst pulsein : Bool) :
    pulse.clock true true rst pulsein = reset.clock true true rst pulsein := by
  obtain ⟨inSet, inReset, inResetPrev, outProc⟩ := quiescent
  cases rst with
  | true => rfl
  | false => simp [clock, nextIn, nextOut, inSet, inReset, inResetPrev, outProc, reset]

/-- Without a request a quiescent converter stays quiescent. -/
theorem Quiescent.clock {pulse : Pulse2pulse} (quiescent : pulse.Quiescent) (rst : Bool) :
    (pulse.clock true true rst false).Quiescent := by
  rw [quiescent.clock_eq]
  cases rst <;> decide

/-! ### The handshake with one clock for both sides -/

/-- The converter `k` edges after the edge at which it took a request. -/
def request : Nat → Pulse2pulse
  | 0 => reset.clock true true false true
  | k + 1 => (request k).clock true true false false

/-- During the handshake the input is ignored. -/
theorem request_clock {k : Nat} (busy : k < 14) (pulsein : Bool) :
    (request k).clock true true false pulsein = request (k + 1) := by
  revert k pulsein
  decide

/-- The handshake takes fourteen edges. -/
theorem quiescent_request : (request 14).Quiescent := by decide

/-- One pulse is delivered, at the fourth edge after the request was taken. -/
theorem pulseout_request {k : Nat} (bound : k < 20) :
    (request k).outProc.pulseout = decide (k = 3) := by
  revert k
  decide

/-- At rest, or some edges into a handshake. -/
def Handshake (pulse : Pulse2pulse) : Prop := pulse = reset ∨ ∃ k < 15, pulse = request k

theorem handshake_reset_clock (rst pulsein : Bool) :
    (reset.clock true true rst pulsein).Handshake := by
  cases rst with
  | true => exact Or.inl rfl
  | false =>
    cases pulsein with
    | true => exact Or.inr ⟨0, by decide, rfl⟩
    | false => exact Or.inl rfl

/-- A converter clocked on both sides at once never leaves the handshake. -/
theorem Handshake.clock {pulse : Pulse2pulse} (handshake : pulse.Handshake)
    (rst pulsein : Bool) : (pulse.clock true true rst pulsein).Handshake := by
  rcases handshake with rfl | ⟨k, bound, rfl⟩
  · exact handshake_reset_clock rst pulsein
  · cases rst with
    | true => exact Or.inl rfl
    | false =>
      rcases Nat.lt_succ_iff_lt_or_eq.mp bound with busy | rfl
      · exact Or.inr ⟨k + 1, Nat.succ_lt_succ busy, request_clock busy pulsein⟩
      · rw [quiescent_request.clock_eq]
        exact handshake_reset_clock false pulsein

/-- A converter that delivers a pulse is three edges into its handshake. -/
theorem Handshake.eq_of_pulseout {pulse : Pulse2pulse} (handshake : pulse.Handshake)
    (delivered : pulse.outProc.pulseout = true) : pulse = request 3 := by
  rcases handshake with rfl | ⟨k, bound, rfl⟩
  · exact absurd delivered Bool.false_ne_true
  · rw [pulseout_request (lt_trans bound (by decide)), decide_eq_true_eq] at delivered
    rw [delivered]

/-- A converter that is not quiescent is in a handshake. -/
theorem Handshake.busy {pulse : Pulse2pulse} (handshake : pulse.Handshake)
    (notQuiescent : ¬pulse.Quiescent) : ∃ k < 14, pulse = request k := by
  rcases handshake with rfl | ⟨k, bound, rfl⟩
  · exact absurd quiescent_reset notQuiescent
  · rcases Nat.lt_succ_iff_lt_or_eq.mp bound with busy | rfl
    · exact ⟨k, busy, rfl⟩
    · exact absurd quiescent_request notQuiescent

end Pulse2pulse

end K71GbE
