/-
This file shows what `channel_avg` does when no trigger comes: whatever state it
is in, the windows soon end at a steady pace, and every output after the first is
the mean of the samples since the one before.
-/

import K71GbE.Sampling.ChannelAvg

namespace K71GbE.Sampling

open Clocked

namespace WindowRun

/-- No trigger is on its way through the synchroniser, and none arrives. -/
structure NoTrigger (run : WindowRun) : Prop where
  passed : run.start.trigPrev1 = true → run.start.trigPrev2 = true
  passing : run.start.trigPrev = true → run.start.trigPrev1 = true
  arriving : run.trig 0 = true → run.start.trigPrev = true
  later : ∀ k, run.trig (k + 1) = true → run.trig k = true

variable {run : WindowRun}

/-- Then none is ever seen. -/
theorem NoTrigger.not_taken (quiet : run.NoTrigger) (k : Nat) : ¬run.Taken k := by
  have chain : ((run.window k).trigPrev1 = true → (run.window k).trigPrev2 = true) ∧
      ((run.window k).trigPrev = true → (run.window k).trigPrev1 = true) ∧
      (run.trig k = true → (run.window k).trigPrev = true) := by
    induction k with
    | zero => exact ⟨quiet.passed, quiet.passing, quiet.arriving⟩
    | succ k inductionHypothesis =>
      rw [window_succ]
      exact ⟨inductionHypothesis.2.1, inductionHypothesis.2.2, quiet.later k⟩
  rw [Taken, Window.trigSynced]
  cases prev2 : (run.window k).trigPrev2 with
  | false => simpa [prev2] using chain.1
  | true => simp

end WindowRun

namespace AvgRun

variable {nch : Nat} (run : AvgRun nch)

/-- `OUTVALID` comes at clock `first` and every `2^n` clocks from then on, and each time but the
first with the exact means of the samples since the last time. -/
structure AveragesSteadily (first : Nat) : Prop where
  positive : 0 < first
  soon : first ≤ 2 ^ avgN run.config + 1
  early : ∀ k, 0 < k → k < first → (run.avg k).window.outvalid = false
  every : ∀ k, first ≤ k →
    ((run.avg k).window.outvalid = true ↔ 2 ^ avgN run.config ∣ k - first)
  fits : ∀ k, first < k → (run.avg k).window.outvalid = true → ∀ i : Fin nch,
    ((run.avg k).internalVal i).toInt =
      total (run.sample i) (k - 2 ^ avgN run.config) (2 ^ avgN run.config)
  mean : ∀ k, first < k → (run.avg k).window.outvalid = true → ∀ i : Fin nch,
    (part 16 ((run.avg k).outdataQ run.config) i).toInt =
      total (run.sample i) (k - 2 ^ avgN run.config) (2 ^ avgN run.config) / 2 ^ avgN run.config

section Steady

variable {run} (points : 1 ≤ avgN run.config) (quiet : ∀ k, ¬run.windows.Taken k)

include points quiet

/-- Between two ends of a window the accumulators start again once, at its first clock. -/
theorem window_of_end {e : Nat} (ends : run.windows.left e = 0) :
    run.windows.Restarts (e + 1) ∧
      ∀ k, e + 1 < k → k < e + 1 + 2 ^ avgN run.config → ¬run.windows.Restarts k := by
  refine ⟨run.windows.restarts_of_end ends (quiet _), fun k after inside restarts => ?_⟩
  have countdown := run.windows.countdown points
  have full := run.windows.left_of_restarts points restarts
  have left := countdown.within ends (fun i _ => quiet i) (m := k - e) (by omega)
    (by show k - e ≤ 2 ^ avgN run.config; omega)
  rw [show e + (k - e) = k by omega] at left
  have wide : 2 ^ avgN run.windows.config = 2 ^ avgN run.config := rfl
  rw [full] at left
  omega

/-- The pace of the windows. -/
theorem outvalid_iff {k : Nat} (later : run.windows.left 0 < k) :
    (run.avg k).window.outvalid = true ↔
      2 ^ avgN run.config ∣ k - (run.windows.left 0 + 1) := by
  have countdown := run.windows.countdown points
  have first : run.windows.left (0 + run.windows.left 0) = 0 := by
    rw [countdown.down (fun i _ _ => quiet i) le_rfl, Nat.sub_self]
  rw [Nat.zero_add] at first
  obtain ⟨m, rfl⟩ := Nat.exists_eq_add_of_lt later
  rw [window_avg, WindowRun.outvalid_succ, countdown.zero_iff first fun i _ => quiet i,
    show run.windows.left 0 + m + 1 - (run.windows.left 0 + 1) = m by omega]
  exact Iff.rfl

/-- An output that is not the first comes a whole window behind another one. -/
theorem exists_end {k : Nat} (later : run.windows.left 0 + 1 < k)
    (valid : (run.avg k).window.outvalid = true) :
    ∃ e, k = e + 1 + 2 ^ avgN run.config ∧ run.windows.left e = 0 := by
  obtain ⟨q, periods⟩ := (outvalid_iff points quiet (by omega)).mp valid
  have nonzero : q ≠ 0 := by
    rintro rfl
    omega
  obtain ⟨q, rfl⟩ := Nat.exists_eq_succ_of_ne_zero nonzero
  rw [Nat.mul_succ] at periods
  have ends : (run.avg (k - 2 ^ avgN run.config)).window.outvalid = true :=
    (outvalid_iff points quiet (by omega)).mpr ⟨q, by omega⟩
  refine ⟨k - 2 ^ avgN run.config - 1, by omega, ?_⟩
  rw [← WindowRun.outvalid_succ, ← window_avg,
    show k - 2 ^ avgN run.config - 1 + 1 = k - 2 ^ avgN run.config by omega]
  exact ends

/-- Such an output is the exact mean of the samples in between. -/
theorem mean_of_outvalid {k : Nat} (later : run.windows.left 0 + 1 < k)
    (valid : (run.avg k).window.outvalid = true) (i : Fin nch) :
    ((run.avg k).internalVal i).toInt =
        total (run.sample i) (k - 2 ^ avgN run.config) (2 ^ avgN run.config) ∧
      (part 16 ((run.avg k).outdataQ run.config) i).toInt =
        total (run.sample i) (k - 2 ^ avgN run.config) (2 ^ avgN run.config) /
          2 ^ avgN run.config := by
  obtain ⟨e, place, ends⟩ := exists_end points quiet later valid
  obtain ⟨restarts, last⟩ := window_of_end points quiet ends
  have mean := run.mean_of_window restarts last i
  rwa [← place, show e + 1 = k - 2 ^ avgN run.config by omega] at mean

end Steady

/-- Without a trigger the outputs come at a steady pace and are the means of the samples in
between. -/
theorem averages_steadily (points : 1 ≤ avgN run.config) (noTrigger : run.windows.NoTrigger) :
    ∃ first, run.AveragesSteadily first := by
  have quiet := noTrigger.not_taken
  have countdown := run.windows.countdown points
  have bound : run.windows.left 0 ≤ 2 ^ avgN run.config := remaining_le _
  refine ⟨run.windows.left 0 + 1, Nat.succ_pos _, Nat.succ_le_succ bound, fun k after early => ?_,
    fun k later => outvalid_iff points quiet later,
    fun k later valid i => (mean_of_outvalid points quiet later valid i).1,
    fun k later valid i => (mean_of_outvalid points quiet later valid i).2⟩
  obtain ⟨k, rfl⟩ := Nat.exists_eq_succ_of_ne_zero after.ne'
  refine Bool.eq_false_of_not_eq_true fun valid => ?_
  rw [window_avg, WindowRun.outvalid_succ] at valid
  have left := countdown.down (s := 0) (m := k) (fun i _ _ => quiet i) (by omega)
  rw [Nat.zero_add, valid] at left
  omega

/-- The ramp of the test bench in all channels, behind a reset. -/
def ramp : AvgRun 16 where
  config := 0x94
  start := ⟨.reset, fun _ => 0, fun _ => 0⟩
  trig _ := false
  indataQ k := ofLanes (List.replicate 16 (BitVec.ofInt 16 (4 * k - 512)))

theorem ramp_averages_steadily : ∃ first, ramp.AveragesSteadily first :=
  ramp.averages_steadily (by decide)
    ⟨by decide, by decide, by decide, fun k later => absurd later Bool.false_ne_true⟩

end AvgRun

end K71GbE.Sampling
