/-
This file finds out when `channel_avg` averages rightly although triggers come.

A trigger loads the window counter but leaves the accumulators alone, so the
window that it finds goes on with another number of samples to come. With an
offset of 0 the accumulators start again. With any other offset the outputs are
right for every stream of samples exactly when each trigger that decides the end
of a window leaves that end where it was.
-/

import K71GbE.Sampling.ChannelAvg

namespace K71GbE.Sampling

open Clocked

/-- The clocks from a trigger to the end of the window. -/
def delay (config : BitVec 8) : Nat := remaining (avgN config) (offset config)

/-- The high bits of `CONFIG` are 0. -/
def NoOffset (config : BitVec 8) : Prop := config.extractLsb' 4 4 = 0

instance (config : BitVec 8) : Decidable (NoOffset config) := inferInstanceAs (Decidable (_ = _))

theorem offset_toNat (config : BitVec 8) :
    (offset config).toNat = (config.extractLsb' 4 4).toNat + 1 := by
  have small := (config.extractLsb' 4 4).isLt
  rw [offset, BitVec.toNat_add, BitVec.toNat_setWidth]
  show ((config.extractLsb' 4 4).toNat % 2 ^ 16 + 1) % 2 ^ 16 = _
  omega

theorem offset_eq_one (config : BitVec 8) : offset config = 1 ↔ NoOffset config := by
  rw [NoOffset, ← BitVec.toNat_inj, ← BitVec.toNat_inj, offset_toNat]
  show _ = 1 ↔ _ = 0
  omega

namespace WindowRun

/-- A window begins at clock `k`. -/
def Begins (run : WindowRun) (k : Nat) : Prop := ¬run.Taken k ∧ (run.window k).j = 1

/-- Every trigger either has no offset to load, or another trigger comes before the window ends, or
fewer than `2^n` samples have been taken by then, or the window ends as long after its begin as
without a trigger. -/
def InPhase (run : WindowRun) : Prop :=
  ∀ t, run.Taken t → NoOffset run.config ∨
    (∃ later, t < later ∧ later ≤ t + delay run.config ∧ run.Taken later) ∨
    t + delay run.config + 1 < 2 ^ avgN run.config ∨
    ∃ s ≤ t, run.Begins s ∧ (∀ k, s < k → k ≤ t → ¬run.Begins k) ∧
      s + 2 ^ avgN run.config = t + delay run.config + 1

section Offset

variable {run : WindowRun}

/-- With an offset the accumulators start again where a window begins, and nowhere else. -/
theorem restarts_iff (offset : ¬NoOffset run.config) (k : Nat) :
    run.Restarts k ↔ run.Begins k := by
  by_cases taken : run.Taken k
  · rw [Restarts, run.loaded_of_taken taken, offset_eq_one]
    exact iff_of_false offset fun begins => begins.1 taken
  · rw [Restarts, run.loaded_of_not_taken taken]
    exact ⟨fun one => ⟨taken, one⟩, fun begins => begins.2⟩

theorem left_of_taken {t : Nat} (taken : run.Taken t) : run.left t = delay run.config := by
  rw [left, run.loaded_of_taken taken, delay]

end Offset

section Windows

variable {run : WindowRun} (points : 1 ≤ avgN run.config) {s k : Nat}

include points

/-- Without a trigger since it began, a window has its full length. -/
theorem full_of_quiet (restarts : run.Restarts s) (inside : s ≤ k)
    (last : ∀ i, s < i → i ≤ k → ¬run.Restarts i) (quiet : ∀ i, s < i → i ≤ k → ¬run.Taken i)
    (ends : run.left k = 0) : k + 1 = s + 2 ^ avgN run.config := by
  have countdown := run.countdown points
  have full := run.left_of_restarts points restarts
  have positive := Nat.two_pow_pos (avgN run.config)
  have down {m : Nat} (short : m ≤ 2 ^ avgN run.config - 1) (within : s + m ≤ k) :
      run.left (s + m) = 2 ^ avgN run.config - 1 - m := by
    rw [← full] at short ⊢
    exact countdown.down (fun i after before => quiet i after (by omega)) short
  rcases Nat.lt_or_ge (s + (2 ^ avgN run.config - 1)) k with beyond | within
  · -- The window would have ended before, and another one begun.
    have ended := down le_rfl beyond.le
    rw [Nat.sub_self] at ended
    exact absurd (run.restarts_of_end ended (quiet _ (by omega) (by omega)))
      (last _ (by omega) (by omega))
  · have here := down (m := k - s) (by omega) (by omega)
    rw [show s + (k - s) = k by omega, ends] at here
    omega

/-- The last trigger in a window decides its end. -/
theorem end_of_trigger {t : Nat} (taken : run.Taken t) (inside : t ≤ k)
    (last : ∀ i, t < i → i ≤ k → ¬run.Restarts i) (quiet : ∀ i, t < i → i ≤ k → ¬run.Taken i)
    (ends : run.left k = 0) : k = t + delay run.config := by
  have countdown := run.countdown points
  have down {m : Nat} (short : m ≤ delay run.config) (within : t + m ≤ k) :
      run.left (t + m) = delay run.config - m := by
    rw [← left_of_taken taken] at short ⊢
    exact countdown.down (fun i after before => quiet i after (by omega)) short
  rcases Nat.lt_or_ge (t + delay run.config) k with beyond | within
  · have ended := down le_rfl beyond.le
    rw [Nat.sub_self] at ended
    exact absurd (run.restarts_of_end ended (quiet _ (by omega) (by omega)))
      (last _ (by omega) (by omega))
  · have here := down (m := k - t) (by omega) (by omega)
    rw [show t + (k - t) = k by omega, ends] at here
    omega

/-- Behind a trigger with an offset, the accumulators do not start again before the end. -/
theorem not_restarts_of_trigger (offset' : ¬NoOffset run.config) {t : Nat} (taken : run.Taken t)
    (quiet : ∀ i, t < i → i ≤ t + delay run.config → ¬run.Taken i) {m : Nat}
    (inside : m ≤ delay run.config) : ¬run.Restarts (t + m) := by
  have countdown := run.countdown points
  have loaded : (run.window (t + m)).loaded run.config = offset run.config + BitVec.ofNat 16 m := by
    induction m with
    | zero => rw [Nat.add_zero, run.loaded_of_taken taken, BitVec.add_zero]
    | succ m inductionHypothesis =>
      have left := countdown.down (s := t) (m := m) (fun i after before => quiet i after (by omega))
        (by rw [left_of_taken taken]; omega)
      have clear : ((run.window (t + m)).loaded run.config).getLsbD (avgN run.config) = false := by
        refine Bool.eq_false_of_not_eq_true fun set => ?_
        rw [left_of_taken taken, WindowRun.left, (remaining_eq_zero _).mpr set] at left
        omega
      rw [← Nat.add_assoc, run.loaded_of_not_taken (quiet _ (by omega) (by omega)), window_succ]
      show (if ((run.window (t + m)).loaded run.config).getLsbD (avgN run.config) then 1
        else (run.window (t + m)).loaded run.config + 1) = _
      rw [clear, if_neg Bool.false_ne_true, inductionHypothesis (by omega), BitVec.add_assoc,
        BitVec.ofNat_add]
      rfl
  have bound : delay run.config ≤ 2 ^ 15 :=
    (remaining_le _).trans (Nat.pow_le_pow_right (by decide) (Nat.le_of_lt_succ (avgN_lt _)))
  have small := (run.config.extractLsb' 4 4).isLt
  intro restarts
  have value := congrArg BitVec.toNat (loaded.symm.trans restarts)
  rw [BitVec.toNat_add, offset_toNat, BitVec.toNat_ofNat, Nat.mod_eq_of_lt (by omega),
    Nat.mod_eq_of_lt (by omega)] at value
  refine offset' ((offset_eq_one _).mp (BitVec.eq_of_toNat_eq ?_))
  rw [offset_toNat]
  have one : (1 : BitVec 16).toNat = 1 := rfl
  rw [one] at value ⊢
  omega

/-- The end of a window after the last restart: either the window has its full length, or the last
trigger in it decided its end. -/
theorem full_or_trigger (restarts : run.Restarts s) (inside : s ≤ k)
    (last : ∀ i, s < i → i ≤ k → ¬run.Restarts i) (ends : run.left k = 0) :
    k + 1 = s + 2 ^ avgN run.config ∨
      ∃ t, s < t ∧ run.Taken t ∧ k = t + delay run.config ∧
        ∀ i, t < i → i ≤ k → ¬run.Taken i := by
  by_cases triggered : ∃ t, s < t ∧ t ≤ k ∧ run.Taken t
  · obtain ⟨first, after, within, taken⟩ := triggered
    have latest := Nat.findGreatest_spec (P := run.Taken) within taken
    have reached := Nat.le_findGreatest (P := run.Taken) within taken
    have quiet (i : Nat) (behind : Nat.findGreatest run.Taken k < i) (before : i ≤ k) :
        ¬run.Taken i := Nat.findGreatest_is_greatest behind before
    refine Or.inr ⟨_, after.trans_le reached, latest, ?_, quiet⟩
    exact end_of_trigger points latest (Nat.findGreatest_le k)
      (fun i behind before => last i (by omega) before) quiet ends
  · refine Or.inl (full_of_quiet points restarts inside last (fun i after before taken => ?_) ends)
    exact triggered ⟨i, after, before, taken⟩

end Windows

/-! ### Behind a reset -/

section Reset

variable (run : WindowRun) (reset : run.start = .reset)

include reset

/-- The first sample is taken with the counter at 0. -/
theorem left_zero : run.left 0 = 2 ^ avgN run.config := by
  have zero : (run.window 0).loaded run.config = 0 := by
    rw [window, upTo, List.range_zero, List.map_nil, run_nil, reset]
    rfl
  have clear : ¬(0 : BitVec 16).getLsbD (avgN run.config) = true := by simp
  rw [left, zero, remaining, if_neg clear]
  simp

/-- The accumulators start again with the second sample. -/
theorem restarts_one : run.Restarts 1 := by
  have second : run.window 1 = ⟨run.trig 0, false, false, 1, false⟩ := by
    rw [window_succ, window, upTo, List.range_zero, List.map_nil, run_nil, reset]
    simp [Window.clock, Window.loaded, Window.trigSynced, Window.reset]
  rw [Restarts, second]
  rfl

/-- When the first output is due, there is a last restart. -/
theorem exists_last_restart {k : Nat} (ends : run.left k = 0) :
    ∃ s ≤ k, run.Restarts s ∧ ∀ i, s < i → i ≤ k → ¬run.Restarts i := by
  have begun : 1 ≤ k := by
    refine Nat.one_le_iff_ne_zero.mpr fun zero => ?_
    have positive := Nat.two_pow_pos (avgN run.config)
    rw [zero, left_zero run reset] at ends
    omega
  exact ⟨_, Nat.findGreatest_le k, Nat.findGreatest_spec begun (restarts_one run reset),
    fun i behind before => Nat.findGreatest_is_greatest behind before⟩

end Reset

end WindowRun

/-! ### The outputs -/

namespace AvgRun

variable {nch : Nat}

/-- The component after a reset. -/
def afterReset (config : BitVec 8) (trig : Nat → Bool) (old : ChannelAvg nch)
    (indataQ : Nat → BitVec (nch * 16)) : AvgRun nch :=
  ⟨config, old.reset, trig, indataQ⟩

/-- Once `2^n` samples have been taken, every output is the mean of the last `2^n` ones. -/
def Means (run : AvgRun nch) : Prop :=
  ∀ k, 2 ^ avgN run.config ≤ k → (run.avg k).window.outvalid = true → ∀ i : Fin nch,
    (part 16 ((run.avg k).outdataQ run.config) i).toInt =
      total (run.sample i) (k - 2 ^ avgN run.config) (2 ^ avgN run.config) / 2 ^ avgN run.config

/-- An impulse: every channel has the sample -1 once, and 0 otherwise. -/
def impulse (nch p k : Nat) : BitVec (nch * 16) := if k = p then BitVec.allOnes _ else 0

theorem sample_impulse {run : AvgRun nch} {p : Nat} (data : run.indataQ = impulse nch p)
    (i : Fin nch) : run.sample i = fun t => if t = p then -1 else 0 := by
  have ones : part 16 (BitVec.allOnes (nch * 16)) i = BitVec.allOnes 16 := by
    have inside : (i.val + 1) * 16 ≤ nch * 16 := Nat.mul_le_mul_right 16 i.isLt
    refine BitVec.eq_of_getLsbD_eq fun bit small => ?_
    rw [getLsbD_part, BitVec.getLsbD_allOnes, BitVec.getLsbD_allOnes]
    simp [small, show i.val * 16 + bit < nch * 16 by omega]
  funext t
  rw [sample, data, impulse]
  split_ifs with met
  · rw [ones]
    rfl
  · rw [part]
    exact congrArg BitVec.toInt BitVec.extractLsb'_zero

section Window

variable (run : AvgRun nch) (channels : 0 < nch) {s k : Nat}
  (restarts : run.windows.Restarts s) (inside : s ≤ k)
  (last : ∀ i, s < i → i ≤ k → ¬run.windows.Restarts i) (ends : run.windows.left k = 0)
  (enough : 2 ^ avgN run.config ≤ k + 1)

include channels restarts inside last ends enough

/-- The output for an impulse tells whether it is in the window, the mean whether it is in the last
`2^n` samples. -/
theorem answer_impulse {p : Nat} (data : run.indataQ = impulse nch p) (means : run.Means) :
    (BitVec.ofInt 16 ((if s ≤ p ∧ p < k + 1 then -1 else 0) / 2 ^ avgN run.config)).toInt =
      (if k + 1 - 2 ^ avgN run.config ≤ p ∧ p < k + 1 then -1 else 0) / 2 ^ avgN run.config := by
  have valid : (run.avg (k + 1)).window.outvalid = true := by
    rw [window_avg, WindowRun.outvalid_succ]
    exact ends
  have held := run.internalVal_eq (m := k - s) restarts
    (fun i after before => last i after (by omega)) ⟨0, channels⟩
  have mean := means (k + 1) enough valid ⟨0, channels⟩
  have wide := avgN_lt run.config
  rw [show s + (k - s) + 1 = k + 1 by omega] at held
  rwa [ChannelAvg.part_outdataQ, held, extractLsb'_ofInt (by omega), sample_impulse data,
    total_single, total_single, show s + (k - s + 1) = k + 1 by omega,
    show k + 1 - 2 ^ avgN run.config + 2 ^ avgN run.config = k + 1 by omega] at mean

/-- A window with a wrong number of samples shows in the answer to an impulse. -/
theorem length_of_means
    (means : ∀ indataQ, ({ run with indataQ := indataQ } : AvgRun nch).Means) :
    k + 1 = s + 2 ^ avgN run.config := by
  have answer (p : Nat) :
      (BitVec.ofInt 16 ((if s ≤ p ∧ p < k + 1 then -1 else 0) / 2 ^ avgN run.config)).toInt =
        (if k + 1 - 2 ^ avgN run.config ≤ p ∧ p < k + 1 then -1 else 0) /
          2 ^ avgN run.config :=
    answer_impulse { run with indataQ := impulse nch p } channels restarts inside last ends enough
      rfl (means _)
  have positive := Nat.two_pow_pos (avgN run.config)
  have minus : (-1 : Int) / 2 ^ avgN run.config = -1 := by
    rw [Int.neg_one_ediv, Int.sign_eq_one_of_pos (by positivity)]
  by_contra other
  rcases Nat.lt_or_ge (k + 1) (s + 2 ^ avgN run.config) with short | long
  · -- The sample before the window is missing from its total.
    have seen := answer (s - 1)
    rw [if_neg (by omega), if_pos (by omega), minus, Int.zero_ediv] at seen
    exact absurd seen (by decide)
  · -- A sample at the beginning of the window is too old.
    have seen := answer (k - 2 ^ avgN run.config)
    rw [if_pos (by omega), if_neg (by omega), minus, Int.zero_ediv] at seen
    exact absurd seen (by decide)

end Window

section Exact

variable {config : BitVec 8} (points : 1 ≤ avgN config) {trig : Nat → Bool}

include points

theorem inPhase_of_means (channels : 0 < nch)
    (means : ∀ (old : ChannelAvg nch) indataQ, (afterReset config trig old indataQ).Means) :
    (WindowRun.mk config .reset trig).InPhase := by
  set windows := WindowRun.mk config .reset trig with windows_eq
  intro t taken
  by_contra outside
  simp only [not_or, not_exists, not_and, not_lt] at outside
  obtain ⟨offset, quiet, late, outOfPhase⟩ := outside
  have counted := (windows.countdown points).down (s := t) (m := delay config)
    (fun i after before => quiet i after before) (WindowRun.left_of_taken taken).ge
  rw [WindowRun.left_of_taken taken] at counted
  have ends : windows.left (t + delay config) = 0 := counted.trans (Nat.sub_self _)
  obtain ⟨s, within, restarts, last⟩ := windows.exists_last_restart rfl ends
  have before : s < t := by
    refine Nat.lt_of_not_le fun behind => ?_
    have noRestart := WindowRun.not_restarts_of_trigger points offset taken quiet (m := s - t)
      (by show s - t ≤ delay config; omega)
    rw [show t + (s - t) = s by omega] at noRestart
    exact noRestart restarts
  have length := length_of_means (afterReset config trig ⟨.reset, 0, 0⟩ fun _ => 0) channels
    restarts within last ends late fun indataQ => means ⟨.reset, 0, 0⟩ indataQ
  refine outOfPhase s before.le ((WindowRun.restarts_iff offset s).mp restarts)
    (fun k after inside begins => ?_) length.symm
  exact last k after (by omega) ((WindowRun.restarts_iff offset k).mpr begins)

/-- In phase, every output that is due comes a whole window behind the last restart. -/
theorem length_of_inPhase (inPhase : (WindowRun.mk config .reset trig).InPhase) {s k : Nat}
    (restarts : (WindowRun.mk config .reset trig).Restarts s) (inside : s ≤ k)
    (last : ∀ i, s < i → i ≤ k → ¬(WindowRun.mk config .reset trig).Restarts i)
    (ends : (WindowRun.mk config .reset trig).left k = 0) (enough : 2 ^ avgN config ≤ k + 1) :
    k + 1 = s + 2 ^ avgN config := by
  set windows := WindowRun.mk config .reset trig with windows_eq
  rcases WindowRun.full_or_trigger points restarts inside last ends with
    full | ⟨t, after, taken, place, quiet⟩
  · exact full
  have decided : k = t + delay config := place
  rcases inPhase t taken with
    noOffset | ⟨later, behind, before, again⟩ | early | ⟨begin, within, begins, latest, length⟩
  · -- Without an offset a trigger is a restart itself.
    have restarted : windows.Restarts t := by
      rw [WindowRun.Restarts, windows.loaded_of_taken taken]
      exact (offset_eq_one config).mpr noOffset
    exact absurd restarted (last t after (by omega))
  · exact absurd again (quiet later behind (decided ▸ before))
  · have early' : t + delay config + 1 < 2 ^ avgN config := early
    omega
  · have offset : ¬NoOffset config := fun noOffset => last t after (by omega) (by
      rw [WindowRun.Restarts, windows.loaded_of_taken taken]
      exact (offset_eq_one config).mpr noOffset)
    have length' : begin + 2 ^ avgN config = t + delay config + 1 := length
    have same : begin = s := by
      rcases Nat.lt_trichotomy begin s with less | equal | more
      · exact absurd ((WindowRun.restarts_iff offset s).mp restarts) (latest s less after.le)
      · exact equal
      · exact absurd ((WindowRun.restarts_iff offset begin).mpr begins)
          (last begin more (by omega))
    omega

/-- Whatever the samples, the outputs are the means they should be exactly when the triggers leave
the ends of the windows where they were. -/
theorem means_iff (channels : 0 < nch) :
    (∀ (old : ChannelAvg nch) indataQ, (afterReset config trig old indataQ).Means) ↔
      (WindowRun.mk config .reset trig).InPhase := by
  refine ⟨inPhase_of_means points channels, fun inPhase old indataQ k enough valid i => ?_⟩
  have enough' : 2 ^ avgN config ≤ k := enough
  have positive := Nat.two_pow_pos (avgN config)
  obtain ⟨k, rfl⟩ : ∃ m, k = m + 1 := Nat.exists_eq_succ_of_ne_zero (by omega)
  rw [window_avg, WindowRun.outvalid_succ] at valid
  obtain ⟨s, inside, restarts, last⟩ := WindowRun.exists_last_restart _ rfl valid
  have length := length_of_inPhase points inPhase restarts inside last valid enough'
  have mean := (afterReset config trig old indataQ).mean_of_window restarts
    (fun j after before => by
    have before' : j < s + 2 ^ avgN config := before
    exact last j after (by omega)) i
  have place : s + 2 ^ avgN (afterReset config trig old indataQ).config = k + 1 := length.symm
  rw [place] at mean
  rw [mean.2, show k + 1 - 2 ^ avgN (afterReset config trig old indataQ).config = s by omega]

end Exact

/-- Without an offset a trigger that stays does no harm. -/
theorem means_of_no_offset :
    (afterReset 0x04 (fun k => decide (20 ≤ k)) (⟨.reset, 0, 0⟩ : ChannelAvg 16)
      (BitVec.ofNat 256)).Means :=
  (means_iff (by decide) (by decide)).mpr (fun t _ => Or.inl (by decide)) _ _

/-- All channels at the level 16, and 16 points to average from an offset of 9 on. -/
def level (trig : Nat → Bool) : AvgRun 16 :=
  afterReset 0x94 trig ⟨.reset, 0, 0⟩ fun _ => ofLanes (List.replicate 16 16#16)

/-- A trigger in the sixth clock of a window ends it four clocks early: 12 samples of 16 make the
mean 12. -/
theorem twelve_of_sixteen :
    1 ≤ avgN 0x94 ∧ ¬(level fun k => decide (20 ≤ k)).Means := by
  refine ⟨by decide, fun means => ?_⟩
  have output :
      (part 16 (((level fun k => decide (20 ≤ k)).avg 29).outdataQ 0x94) 0).toInt = 12 := by
    decide +kernel
  have mean := means 29 (by decide) (by decide +kernel) 0
  have sixteen : total ((level fun k => decide (20 ≤ k)).sample 0) (29 - 2 ^ avgN 0x94)
      (2 ^ avgN 0x94) / 2 ^ avgN 0x94 = 16 := by
    decide +kernel
  exact absurd (output.symm.trans (mean.trans sixteen)) (by decide)

end AvgRun

end K71GbE.Sampling
