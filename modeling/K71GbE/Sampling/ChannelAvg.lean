/-
This file models `channel_avg`, which averages the samples of every channel over
`2**(low 4-bit)` points, in windows that a trigger moves.

One clock is a falling edge, at which the samples are registered, and the rising
edge after it. The counter `j` is a variable of its process and changes at once,
so the accumulators see it as a trigger has loaded it. The accumulators are 32
bits wide and the channels 16, as in the design. `RESET` is asynchronous and does
not touch the sample registers.
-/

import K71GbE.Clocked.Accumulator
import K71GbE.Clocked.Countdown
import K71GbE.Clocked.Lanes
import K71GbE.Clocked.Progress

namespace K71GbE.Sampling

open Clocked

/-- `to_integer(unsigned(CONFIG(3 DOWNTO 0)))`. -/
def avgN (config : BitVec 8) : Nat := (config.extractLsb' 0 4).toNat

/-- `resize(unsigned(CONFIG(7 DOWNTO 4)), j'length) + 1`. -/
def offset (config : BitVec 8) : BitVec 16 := (config.extractLsb' 4 4).setWidth 16 + 1

theorem avgN_lt (config : BitVec 8) : avgN config < 16 := (config.extractLsb' 0 4).isLt

/-- The registers that no sample touches. -/
structure Window where
  trigPrev : Bool
  trigPrev1 : Bool
  trigPrev2 : Bool
  j : BitVec 16
  outvalid : Bool
deriving DecidableEq, Repr

namespace Window

/-- The asynchronous reset. -/
def reset : Window := ⟨false, false, false, 0, false⟩

/-- `trig_synced`. -/
def trigSynced (window : Window) : Bool := !window.trigPrev2 && window.trigPrev1

/-- `j` behind the test of `trig_synced`. -/
def loaded (window : Window) (config : BitVec 8) : BitVec 16 :=
  if window.trigSynced then offset config else window.j

/-- A rising edge. -/
def clock (config : BitVec 8) (window : Window) (trig : Bool) : Window :=
  let j := window.loaded config
  { trigPrev := trig
    trigPrev1 := window.trigPrev
    trigPrev2 := window.trigPrev1
    j := if j.getLsbD (avgN config) then 1 else j + 1
    outvalid := j.getLsbD (avgN config) }

end Window

/-- The inputs of one clock; the samples are those at its falling edge. -/
structure AvgInput (nch : Nat) where
  reset : Bool
  config : BitVec 8
  trig : Bool
  indataQ : BitVec (nch * 16)
deriving DecidableEq, Repr

/-- The registers of `channel_avg`. -/
structure ChannelAvg (nch : Nat) where
  window : Window
  inchVal : Fin nch → BitVec 32
  internalVal : Fin nch → BitVec 32

variable {nch : Nat}

namespace ChannelAvg

/-- The asynchronous reset. -/
def reset (avg : ChannelAvg nch) : ChannelAvg nch :=
  { avg with window := .reset, internalVal := fun _ => 0 }

/-- The falling edge: the samples are registered. -/
def falling (avg : ChannelAvg nch) (input : AvgInput nch) : ChannelAvg nch :=
  { avg with inchVal := fun i => (part 16 input.indataQ i).signExtend 32 }

/-- The rising edge. -/
def rising (avg : ChannelAvg nch) (input : AvgInput nch) : ChannelAvg nch :=
  { avg with
    window := avg.window.clock input.config input.trig
    internalVal := fun i =>
      if avg.window.loaded input.config = 1 then avg.inchVal i
      else avg.internalVal i + avg.inchVal i }

/-- A falling edge and the rising edge after it. -/
def clock (avg : ChannelAvg nch) (input : AvgInput nch) : ChannelAvg nch :=
  if input.reset then (avg.falling input).reset else (avg.falling input).rising input

/-- `OUTDATA_Q`: of every accumulator the bits from `avg_n` on. -/
def outdataQ (avg : ChannelAvg nch) (config : BitVec 8) : BitVec (nch * 16) :=
  ofLanes (List.ofFn fun i => (avg.internalVal i).extractLsb' (avgN config) 16)

theorem part_outdataQ (avg : ChannelAvg nch) (config : BitVec 8) (i : Fin nch) :
    part 16 (avg.outdataQ config) i = (avg.internalVal i).extractLsb' (avgN config) 16 := by
  have inside : (i.val + 1) * 16 ≤ nch * 16 := Nat.mul_le_mul_right 16 i.isLt
  rw [outdataQ, part_ofLanes _ inside (by rw [List.length_ofFn]; exact i.isLt), List.getElem_ofFn]

end ChannelAvg

/-! ### The end of a window -/

/-- The clocks until the window ends for a counter with this value, when no trigger comes. -/
def remaining (n : Nat) (j : BitVec 16) : Nat := if j.getLsbD n then 0 else 2 ^ n - j.toNat % 2 ^ n

section Remaining

variable {n : Nat} (j : BitVec 16)

theorem getLsbD_iff : j.getLsbD n = true ↔ j.toNat / 2 ^ n % 2 = 1 := by
  rw [BitVec.getLsbD, Nat.testBit_eq_decide_div_mod_eq, decide_eq_true_eq]

theorem remaining_eq_zero : remaining n j = 0 ↔ j.getLsbD n = true := by
  have small := Nat.mod_lt j.toNat (Nat.two_pow_pos n)
  unfold remaining
  split_ifs with set
  · simp [set]
  · simp only [set, Bool.false_eq_true, iff_false]
    omega

theorem remaining_le : remaining n j ≤ 2 ^ n := by
  unfold remaining
  split_ifs
  · exact Nat.zero_le _
  · exact Nat.sub_le _ _

theorem remaining_one (points : 1 ≤ n) : remaining n 1 = 2 ^ n - 1 := by
  have two : 2 ≤ 2 ^ n := by simpa using Nat.pow_le_pow_right (n := 2) (by decide) points
  have one : (1 : BitVec 16).toNat = 1 := rfl
  have clear : ¬(1 : BitVec 16).getLsbD n = true := by
    rw [getLsbD_iff, one, Nat.div_eq_of_lt two]
    decide
  rw [remaining, if_neg clear, one, Nat.mod_eq_of_lt two]

/-- Short of the end, counting takes the end one clock nearer. -/
theorem remaining_succ (wide : n < 16) (clear : j.getLsbD n = false) :
    remaining n (j + 1) = remaining n j - 1 := by
  have even : j.toNat / 2 ^ n % 2 = 0 := by
    have notOne : ¬j.toNat / 2 ^ n % 2 = 1 := by
      rw [← getLsbD_iff, clear]
      decide
    omega
  have positive := Nat.two_pow_pos n
  have small := Nat.mod_lt j.toNat positive
  have whole := Nat.div_add_mod j.toNat (2 ^ n)
  have bound := j.isLt
  -- The top half of the counter's range has bit `n` set, so the counter does not wrap.
  obtain ⟨high, width⟩ : ∃ high, 2 ^ 16 = 2 ^ n * (2 * high) := by
    refine ⟨2 ^ (15 - n), ?_⟩
    rw [← Nat.pow_succ', ← Nat.pow_add]
    congr 1
    omega
  have below : j.toNat / 2 ^ n + 1 < 2 * high := by
    have quotient : j.toNat / 2 ^ n < 2 * high := Nat.div_lt_of_lt_mul (width ▸ bound)
    omega
  have room := Nat.mul_le_mul_left (2 ^ n) below
  rw [← width, Nat.mul_succ, Nat.mul_succ] at room
  have next : (j + 1).toNat = j.toNat + 1 := by
    rw [BitVec.toNat_add]
    exact Nat.mod_eq_of_lt (by show j.toNat + 1 < 2 ^ 16; omega)
  have left : remaining n j = 2 ^ n - j.toNat % 2 ^ n := if_neg (by rw [clear]; decide)
  rw [left]
  rcases Nat.lt_or_eq_of_le (Nat.succ_le_of_lt small) with more | last
  · have same : (j.toNat + 1) / 2 ^ n = j.toNat / 2 ^ n ∧
        (j.toNat + 1) % 2 ^ n = j.toNat % 2 ^ n + 1 := by
      refine (Nat.div_mod_unique positive).mpr ⟨?_, more⟩
      rw [Nat.add_comm (j.toNat % 2 ^ n) 1, Nat.add_assoc, Nat.add_comm (j.toNat % 2 ^ n), whole,
        Nat.add_comm]
    have stays : ¬(j + 1).getLsbD n = true := by
      rw [getLsbD_iff, next, same.1, even]
      decide
    rw [remaining, if_neg stays, next, same.2]
    omega
  · have carried : (j.toNat + 1) / 2 ^ n = j.toNat / 2 ^ n + 1 := by
      have split : j.toNat + 1 = 2 ^ n * (j.toNat / 2 ^ n + 1) := by
        rw [Nat.mul_succ]
        omega
      rw [split, Nat.mul_div_cancel_left _ positive]
    have set : (j + 1).getLsbD n = true := by
      rw [getLsbD_iff, next, carried]
      omega
    rw [remaining, if_pos set]
    omega

end Remaining

/-! ### Runs with a constant configuration -/

/-- The window registers under a trigger waveform. -/
structure WindowRun where
  config : BitVec 8
  start : Window
  trig : Nat → Bool

namespace WindowRun

variable (run : WindowRun)

/-- The registers before clock `k`. -/
def window (k : Nat) : Window := Clocked.run (Window.clock run.config) run.start (upTo run.trig k)

/-- The trigger is seen at clock `k`. -/
def Taken (k : Nat) : Prop := (run.window k).trigSynced = true

/-- The accumulators start again at clock `k`. -/
def Restarts (k : Nat) : Prop := (run.window k).loaded run.config = 1

/-- The clocks until the window ends, from clock `k` on. -/
def left (k : Nat) : Nat := remaining (avgN run.config) ((run.window k).loaded run.config)

instance (k : Nat) : Decidable (run.Taken k) := inferInstanceAs (Decidable (_ = _))

instance (k : Nat) : Decidable (run.Restarts k) := inferInstanceAs (Decidable (_ = _))

theorem window_succ (k : Nat) :
    run.window (k + 1) = (run.window k).clock run.config (run.trig k) := by
  rw [window, upTo_succ, run_concat, window]

/-- `OUTVALID` comes where nothing is left of the window. -/
theorem outvalid_succ (k : Nat) : (run.window (k + 1)).outvalid = true ↔ run.left k = 0 := by
  rw [window_succ, left, remaining_eq_zero]
  rfl

theorem loaded_of_not_taken {k : Nat} (quiet : ¬run.Taken k) :
    (run.window k).loaded run.config = (run.window k).j :=
  if_neg quiet

theorem loaded_of_taken {k : Nat} (taken : run.Taken k) :
    (run.window k).loaded run.config = offset run.config :=
  if_pos taken

/-- A new window begins behind the end of one, unless a trigger comes. -/
theorem restarts_of_end {k : Nat} (ends : run.left k = 0) (quiet : ¬run.Taken (k + 1)) :
    run.Restarts (k + 1) := by
  rw [Restarts, run.loaded_of_not_taken quiet, window_succ]
  exact if_pos (remaining_eq_zero _ |>.mp ends)

section Points

variable (points : 1 ≤ avgN run.config)

include points

theorem left_of_restarts {k : Nat} (restarts : run.Restarts k) :
    run.left k = 2 ^ avgN run.config - 1 := by
  rw [left, restarts, remaining_one points]

/-- What is left of the window is a countdown, which the triggers load. -/
theorem countdown : Countdown (2 ^ avgN run.config) run.Taken run.left where
  positive := Nat.two_pow_pos _
  step k quiet := by
    have next : (run.window (k + 1)).j =
        if ((run.window k).loaded run.config).getLsbD (avgN run.config) then 1
        else (run.window k).loaded run.config + 1 := by
      rw [window_succ]
      rfl
    rw [left, run.loaded_of_not_taken quiet, next]
    split_ifs with set ended ended
    · exact remaining_one points
    · exact absurd ((remaining_eq_zero _).mpr set) ended
    · exact absurd ((remaining_eq_zero _).mp ended) set
    · exact remaining_succ _ (avgN_lt _) (Bool.eq_false_of_not_eq_true set)

end Points

end WindowRun

/-- The whole component under a trigger waveform and a stream of samples. -/
structure AvgRun (nch : Nat) where
  config : BitVec 8
  start : ChannelAvg nch
  trig : Nat → Bool
  indataQ : Nat → BitVec (nch * 16)

namespace AvgRun

variable (run : AvgRun nch)

def input (k : Nat) : AvgInput nch := ⟨false, run.config, run.trig k, run.indataQ k⟩

/-- The registers before clock `k`. -/
def avg (k : Nat) : ChannelAvg nch := Clocked.run ChannelAvg.clock run.start (upTo run.input k)

/-- The sample of a channel that is taken at clock `k`. -/
def sample (i : Fin nch) (k : Nat) : Int := (part 16 (run.indataQ k) i).toInt

def windows : WindowRun := ⟨run.config, run.start.window, run.trig⟩

theorem avg_succ (k : Nat) :
    run.avg (k + 1) = ((run.avg k).falling (run.input k)).rising (run.input k) := by
  rw [avg, upTo_succ, run_concat, ← avg]
  rfl

theorem window_avg (k : Nat) : (run.avg k).window = run.windows.window k := by
  induction k with
  | zero => rfl
  | succ k inductionHypothesis =>
    rw [avg_succ, WindowRun.window_succ, ← inductionHypothesis]
    rfl

theorem internalVal_succ (k : Nat) (i : Fin nch) :
    (run.avg (k + 1)).internalVal i =
      if run.windows.Restarts k then BitVec.ofInt 32 (run.sample i k)
      else (run.avg k).internalVal i + BitVec.ofInt 32 (run.sample i k) := by
  have same : (run.avg k).window.loaded run.config = 1 ↔ run.windows.Restarts k := by
    rw [WindowRun.Restarts, ← window_avg]
    rfl
  rw [avg_succ]
  exact if_congr same rfl rfl

/-- An accumulator holds the total of the samples since it started again. -/
theorem internalVal_eq {s m : Nat} (restarts : run.windows.Restarts s)
    (last : ∀ k, s < k → k ≤ s + m → ¬run.windows.Restarts k) (i : Fin nch) :
    (run.avg (s + m + 1)).internalVal i =
      BitVec.ofInt 32 (total (run.sample i) s (m + 1)) := by
  induction m with
  | zero =>
    rw [Nat.add_zero, internalVal_succ, if_pos restarts, total_one]
  | succ m inductionHypothesis =>
    have before := inductionHypothesis fun k after inside => last k after (by omega)
    rw [internalVal_succ, if_neg (last _ (by omega) (by omega)), ← Nat.add_assoc, before,
      total_succ _ _ (m + 1), BitVec.ofInt_add, Nat.add_assoc]

/-- A sample is a signed word of 16 bits. -/
theorem sample_bounds (i : Fin nch) (k : Nat) :
    -2 ^ (16 - 1) ≤ run.sample i k ∧ run.sample i k < 2 ^ (16 - 1) :=
  ⟨BitVec.le_toInt _, BitVec.toInt_lt⟩

/-- A full window is averaged exactly: the accumulator has room for the total of its samples, and
the output is their mean, rounded down. -/
theorem mean_of_window {s : Nat} (restarts : run.windows.Restarts s)
    (last : ∀ k, s < k → k < s + 2 ^ avgN run.config → ¬run.windows.Restarts k) (i : Fin nch) :
    ((run.avg (s + 2 ^ avgN run.config)).internalVal i).toInt =
        total (run.sample i) s (2 ^ avgN run.config) ∧
      (part 16 ((run.avg (s + 2 ^ avgN run.config)).outdataQ run.config) i).toInt =
        total (run.sample i) s (2 ^ avgN run.config) / 2 ^ avgN run.config := by
  have positive := Nat.two_pow_pos (avgN run.config)
  have wide := avgN_lt run.config
  have held := run.internalVal_eq (m := 2 ^ avgN run.config - 1) restarts
    (fun k after inside => last k after (by omega)) i
  rw [show s + (2 ^ avgN run.config - 1) + 1 = s + 2 ^ avgN run.config by omega,
    Nat.sub_add_cancel positive] at held
  rw [ChannelAvg.part_outdataQ, held]
  exact mean_of_total (by decide) (by omega) (fun k => (run.sample_bounds i k).1)
    (fun k => (run.sample_bounds i k).2) s

end AvgRun

end K71GbE.Sampling
