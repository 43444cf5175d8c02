/-
This file models `tickgen`, which makes the ticks of `uartio` from the clock, and proves
that its ticks do not drift.

The counter walks round a ring of `2**COUNTER_WIDTH` in steps of `DIVISOR`, and a tick
comes where its top bit rises. A walk that starts half a ring further on, less the step
that the register `tick_prev` is behind, completes a turn at exactly these clocks.
-/

import K71GbE.Clocked.Turns

namespace K71GbE.Uart

open Clocked.Ring

/-- The registers. -/
structure Tickgen (w : Nat) where
  counter : BitVec w
  tickPrev : Bool
  tick1Clk : Bool
deriving DecidableEq, Repr

namespace Tickgen

variable {w : Nat}

/-- `tick_i`, and the output `TICK`. -/
def tickI (state : Tickgen w) : Bool := state.counter.msb

/-- `RESET` leaves the output register alone. -/
def reset (state : Tickgen w) : Tickgen w := { state with counter := 0, tickPrev := false }

/-- A rising edge of `CLK`. -/
def clock (divisor : Nat) (state : Tickgen w) : Tickgen w where
  counter := state.counter + BitVec.ofNat w divisor
  tickPrev := state.tickI
  tick1Clk := !state.tickPrev && state.tickI

/-- The registers so many edges after a reset. -/
def after (divisor : Nat) (state : Tickgen w) (k : Nat) : Tickgen w :=
  (clock divisor)^[k] state.reset

variable {divisor : Nat} (state : Tickgen w)

theorem after_succ (k : Nat) :
    after divisor state (k + 1) = (after divisor state k).clock divisor :=
  Function.iterate_succ_apply' _ _ _

/-- The counter walks round its ring. -/
theorem toNat_counter (k : Nat) :
    (after divisor state k).counter.toNat = walk (2 ^ w) divisor 0 k := by
  induction k with
  | zero => simp [after, reset, walk]
  | succ k inductionHypothesis =>
    rw [after_succ, clock, BitVec.toNat_add, inductionHypothesis, BitVec.toNat_ofNat]
    simp only [walk, Nat.zero_add, Nat.mul_succ, Nat.add_mod_mod, Nat.mod_add_mod]

theorem tickI_after (k : Nat) :
    (after divisor state k).tickI = decide (2 ^ (w - 1) ≤ walk (2 ^ w) divisor 0 k) := by
  rw [tickI, BitVec.msb_eq_decide, toNat_counter]

/-! ### Ticks are turns -/

/-- A rise of the top bit in a ring of two halves. -/
theorem turn_iff_rise {half divisor place : Nat} (bound : divisor ≤ half) :
    (place + half) / (half + half) < (place + divisor + half) / (half + half) ↔
      place % (half + half) < half ∧ half ≤ (place + divisor) % (half + half) := by
  rcases Nat.eq_zero_or_pos half with rfl | positive
  · simp
  have whole := Nat.div_add_mod place (half + half)
  have inside := Nat.mod_lt place (Nat.add_pos_left positive half)
  generalize place / (half + half) = turns at whole
  generalize place % (half + half) = rest at whole inside
  subst whole
  have split : ∀ more, (half + half) * turns + rest + more + half =
      (half + half) * turns + (rest + more + half) := by
    intro more
    omega
  have start := split 0
  rw [Nat.add_zero, Nat.add_zero] at start
  rw [start, split, Nat.add_assoc _ rest divisor, Nat.mul_add_div (by omega),
    Nat.mul_add_div (by omega), Nat.mul_add_mod, Nat.add_lt_add_iff_left]
  rcases Nat.lt_or_ge rest half with low | high
  · have zero : (rest + half) / (half + half) = 0 := Nat.div_eq_of_lt (by omega)
    have small : (rest + divisor) % (half + half) = rest + divisor := Nat.mod_eq_of_lt (by omega)
    rw [zero, small, Nat.div_pos_iff]
    omega
  · have one : (rest + half) / (half + half) = 1 := Nat.div_eq_of_lt_le (by omega) (by omega)
    have most : (rest + divisor + half) / (half + half) < 2 := Nat.div_lt_of_lt_mul (by omega)
    omega

/-- The walk that completes a turn at each tick. -/
theorem tick1Clk_after (width : 0 < w) (bound : divisor ≤ 2 ^ (w - 1)) (k : Nat) :
    (after divisor state (k + 1)).tick1Clk = true ↔
      Completes (2 ^ w) divisor (2 ^ (w - 1) - divisor) k := by
  have ring : 2 ^ w = 2 ^ (w - 1) + 2 ^ (w - 1) := (Nat.two_pow_pred_add_two_pow_pred width).symm
  rw [after_succ, clock, Completes, turns, turns]
  cases k with
  | zero =>
    have first : (after divisor state 0).tickI = false := by
      rw [tickI_after]
      simp [walk]
    have whole : 2 ^ (w - 1) - divisor + divisor * (0 + 1) = 2 ^ (w - 1) := by omega
    have zero : 2 ^ (w - 1) / 2 ^ w = 0 :=
      Nat.div_eq_of_lt (Nat.pow_lt_pow_right Nat.one_lt_two (Nat.sub_one_lt_of_lt width))
    rw [first, whole, zero]
    simp
  | succ k =>
    have before : 2 ^ (w - 1) - divisor + divisor * (k + 1) = divisor * k + 2 ^ (w - 1) := by
      rw [Nat.mul_succ]
      omega
    have now : 2 ^ (w - 1) - divisor + divisor * (k + 1 + 1) =
        divisor * k + divisor + 2 ^ (w - 1) := by
      rw [Nat.mul_succ, Nat.mul_succ]
      omega
    have previous : (after divisor state (k + 1)).tickPrev = (after divisor state k).tickI := by
      rw [after_succ, clock]
    rw [previous, tickI_after, tickI_after, before, now, ring, turn_iff_rise bound, walk, walk]
    simp [Nat.mul_succ]

/-! ### No accumulated jitter -/

/-- From the first clock after reset on, whatever the length of a window, the ticks in it are the
average, rounded down or up; each is one clock wide; and two that follow each other are the
average apart, rounded down or up. -/
theorem no_jitter (width : 0 < w) (positive : 1 ≤ divisor) (bound : divisor ≤ 2 ^ (w - 1)) :
    let pulse : Nat → Bool := fun n => (after divisor state n).tick1Clk
    (∀ first, 1 ≤ first → ∀ count,
        let pulses := (List.range count).countP fun i => pulse (first + i)
        pulses = count * divisor / 2 ^ w ∨ pulses = (count * divisor) ⌈/⌉ 2 ^ w) ∧
      (∀ n, 1 ≤ n → pulse n = true → pulse (n + 1) = false) ∧
      ∀ i j, 1 ≤ i → i < j → pulse i = true → pulse j = true →
        (∀ m, i < m → m < j → pulse m = false) →
          j - i = 2 ^ w / divisor ∨ j - i = 2 ^ w ⌈/⌉ divisor := by
  intro pulse
  have short : divisor ≤ 2 ^ w := bound.trans (Nat.pow_le_pow_right Nat.two_pos (Nat.sub_le w 1))
  have turns : ∀ k, pulse (k + 1) =
      decide (Completes (2 ^ w) divisor (2 ^ (w - 1) - divisor) k) := fun k => by
    rw [Bool.eq_iff_iff, decide_eq_true_eq]
    exact tick1Clk_after state width bound k
  refine ⟨fun first later count => ?_, fun n later now => ?_,
    fun i j later less one other between => ?_⟩
  · obtain ⟨start, rfl⟩ := Nat.exists_eq_add_of_le' later
    simp only [Nat.add_right_comm start 1, turns]
    exact countP_completes short (Nat.two_pow_pos w) start count
  · obtain ⟨k, rfl⟩ := Nat.exists_eq_add_of_le' later
    have high : (after divisor state k).tickI = true := by
      simp only [pulse, after_succ, clock, Bool.and_eq_true] at now
      exact now.2
    have previous : (after divisor state (k + 1)).tickPrev = true := by
      rw [after_succ]
      exact high
    simp only [pulse, after_succ _ (k + 1), clock, previous, Bool.not_true, Bool.false_and]
  · obtain ⟨k, rfl⟩ := Nat.exists_eq_add_of_le' later
    obtain ⟨l, rfl⟩ := Nat.exists_eq_add_of_le' (later.trans less.le)
    rw [turns, decide_eq_true_eq] at one other
    have apart := completes_apart short positive (Nat.lt_of_succ_lt_succ less) one other
      fun m after before completes => by
        have quiet := between (m + 1) (Nat.succ_lt_succ after) (Nat.succ_lt_succ before)
        rw [turns, decide_eq_false_iff_not] at quiet
        exact quiet completes
    rwa [Nat.add_sub_add_right]

/-- Divisor 3 in a counter of four bits: 300 clocks have 56 or 57 ticks, five or six apart. -/
theorem no_jitter_three :
    (∀ first, 1 ≤ first →
        (List.range 300).countP (fun i =>
          (after 3 (⟨0, false, true⟩ : Tickgen 4) (first + i)).tick1Clk) ∈ [56, 57]) ∧
      ∀ i j, 1 ≤ i → i < j → (after 3 (⟨0, false, true⟩ : Tickgen 4) i).tick1Clk = true →
        (after 3 (⟨0, false, true⟩ : Tickgen 4) j).tick1Clk = true →
        (∀ m, i < m → m < j → (after 3 (⟨0, false, true⟩ : Tickgen 4) m).tick1Clk = false) →
          j - i = 5 ∨ j - i = 6 := by
  obtain ⟨windows, _, apart⟩ :=
    no_jitter (⟨0, false, true⟩ : Tickgen 4) (by decide) (show 1 ≤ 3 by decide) (by decide)
  refine ⟨fun first later => ?_, apart⟩
  rcases windows first later 300 with low | high
  · exact low ▸ List.mem_cons_self
  · exact high ▸ List.mem_cons_of_mem _ List.mem_cons_self

end Tickgen

end K71GbE.Uart
