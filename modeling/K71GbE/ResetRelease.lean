/-
This file says what `GlobalResetter` promises while the reset of the design is
released, and when it keeps the promise.

The header has both inputs monitored. A loss of the lock is seen in `R4` only, and one
in `R0` or at the first two edges of `R1` does no harm. A forced reset drives no output,
so that a released reset stays released while `FORCE_RST` is held.
-/

import K71GbE.ResetSequence
import Mathlib.Order.Interval.Finset.Nat

namespace K71GbE.GlobalResetter

open Clocked

section Promise

variable (generics : ResetGenerics) (wave : Nat → ResetInput)

/-- `GLOBAL_RST` is low after edge `n`. -/
def Released (n : Nat) : Prop := (before generics wave (n + 1)).globalRst = some false

/-- `DCM_LOCKED` is low at an edge and was high at the one before. -/
def LostLock (t : Nat) : Prop :=
  0 < t ∧ (wave (t - 1)).dcmLocked = true ∧ (wave t).dcmLocked = false

/-- What should restart the sequence. -/
def Triggers (t : Nat) : Prop :=
  (wave t).pulse = true ∨ (wave t).forceRst = true ∨ LostLock wave t

/-- The edges of a stretch behind which `CLK_RST` is high. -/
def clkRstEdges (first last : Nat) : Nat :=
  ((Finset.Ico first last).filter fun j => (before generics wave (j + 1)).clkRst = some true).card

/-- What the sequence promises when `GLOBAL_RST` is low after edge `n`: the edges before it, as many
as the design is promised, are without `FORCE_RST` and locked, and since the beginning and since
every trigger before edge `n` the clock generator has been reset for as many edges as it is
promised. -/
structure Sequenced (n : Nat) : Prop where
  enough : generics.gblCycles ≤ n
  steady : ∀ j < n, n ≤ j + generics.gblCycles →
    (wave j).forceRst = false ∧ (wave j).dcmLocked = true
  reset : generics.clkCycles ≤ clkRstEdges generics wave 0 (n + 1)
  restarted : ∀ t < n, Triggers wave t →
    generics.clkCycles ≤ clkRstEdges generics wave (t + 1) (n + 1)

/-- A loss of the lock that does not restart the sequence, with less of `R1` left than the clock
generator is promised. -/
def Missed (j : Nat) : Prop :=
  (wave j).pulse = false ∧ (wave j).forceRst = false ∧ LostLock wave j ∧
    ((before generics wave j).rstState = .r1 ∧
        generics.left (before generics wave j).rstCtr < generics.clkCycles ∨
      (before generics wave j).rstState = .r2 ∨ (before generics wave j).rstState = .r3)

/-- The sequence starts over at an edge. -/
def Restarts (i : Nat) : Prop :=
  (before generics wave i).rstState = .r0 ∨ (wave i).pulse = true ∨ (wave i).forceRst = true

/-- No loss was missed since the sequence started, and it is not about to start. -/
def Undisturbed (n : Nat) : Prop :=
  (before generics wave n).rstState ≠ .r0 ∧
    ∀ j < n, Missed generics wave j → ∃ i, j < i ∧ i < n ∧ Restarts generics wave i

end Promise

section Law

variable {generics : ResetGenerics} {wave : Nat → ResetInput} {r q n : Nat}

theorem clkRst_of_calm {j : Nat} (calm : (wave j).pulse = false ∧ (wave j).forceRst = false) :
    (before generics wave (j + 1)).clkRst =
      some (decide ((before generics wave j).rstState = .r0 ∨
        (before generics wave j).rstState = .r1)) := by
  rw [before_succ_of_calm calm, clock_clkRst]

/-- Where a completed sequence was before one of its edges. -/
inductive Place (generics : ResetGenerics) (wave : Nat → ResetInput) (r q i : Nat) : Prop
  | resetting (within : i ≤ resetEnds generics r)
      (counting : Counting generics wave .r1 (resetEnds generics r) i)
  | unlocked (later : resetEnds generics r < i)
      (state : (before generics wave i).rstState = .r2 ∨
        (before generics wave i).rstState = .r3)
  | released (later : settleEnds generics q < i) (state : (before generics wave i).rstState = .r4)

theorem Completed.place (completed : Completed generics wave r q n) {i : Nat} (after : r < i)
    (within : i ≤ n) : Place generics wave r q i := by
  rcases Nat.lt_or_ge (resetEnds generics r) i with reset | reset
  · rcases Nat.lt_or_ge q i with wait | wait
    · rcases Nat.lt_or_ge (settleEnds generics q) i with settle | settle
      · exact .released settle (completed.keeps i settle within)
      · exact .unlocked reset (.inr (completed.settles i wait settle).state)
    · exact .unlocked reset (.inl (completed.waits i reset wait))
  · exact .resetting reset (completed.resets i after within reset)

/-- Within a sequence nothing restarts it. -/
theorem Completed.not_restarts (completed : Completed generics wave r q n) {i : Nat} (after : r < i)
    (within : i < n) : ¬Restarts generics wave i := by
  have calm := completed.calm i after within
  rintro (state | pulse | forced)
  · cases completed.place after within.le with
    | resetting _ counting => cases counting.state.symm.trans state
    | unlocked _ waits => rcases waits with waits | waits <;> cases waits.symm.trans state
    | released _ released => cases released.symm.trans state
  · cases calm.1.symm.trans pulse
  · cases calm.2.symm.trans forced

theorem clkRstEdges_mono (generics : ResetGenerics) (wave : Nat → ResetInput) {first later : Nat}
    (order : first ≤ later) (last : Nat) :
    clkRstEdges generics wave later last ≤ clkRstEdges generics wave first last :=
  Finset.card_le_card (Finset.filter_subset_filter _ (Finset.Ico_subset_Ico_left order))

/-- The edges of `R1` reset the clock generator. -/
theorem Completed.le_clkRstEdges (completed : Completed generics wave r q n) {t : Nat}
    (after : r ≤ t) :
    resetEnds generics r - t ≤ clkRstEdges generics wave (t + 1) (n + 1) := by
  have seen := completed.seen
  have behind := completed.behind
  have later : q ≤ settleEnds generics q := by unfold settleEnds; omega
  have inside : Finset.Ico (t + 1) (resetEnds generics r + 1) ⊆
      (Finset.Ico (t + 1) (n + 1)).filter fun j =>
        (before generics wave (j + 1)).clkRst = some true := by
    intro j member
    rw [Finset.mem_Ico] at member
    rw [Finset.mem_filter, Finset.mem_Ico, clkRst_of_calm (completed.calm j (by omega) (by omega)),
      (completed.resets j (by omega) (by omega) (by omega)).state]
    exact ⟨⟨member.1, by omega⟩, rfl⟩
  have counted := Finset.card_le_card inside
  rwa [Nat.card_Ico, Nat.add_sub_add_right] at counted

/-- No other edges of the sequence do. -/
theorem Completed.clkRstEdges_le (completed : Completed generics wave r q n)
    (released : Released generics wave n) {t : Nat} (after : r ≤ t) :
    clkRstEdges generics wave (t + 1) (n + 1) ≤ resetEnds generics r - t := by
  have inside : ((Finset.Ico (t + 1) (n + 1)).filter fun j =>
      (before generics wave (j + 1)).clkRst = some true) ⊆
        Finset.Ico (t + 1) (resetEnds generics r + 1) := by
    intro j member
    rw [Finset.mem_filter, Finset.mem_Ico] at member
    obtain ⟨⟨lower, upper⟩, high⟩ := member
    rw [Finset.mem_Ico]
    refine ⟨lower, Nat.lt_succ_of_le (Nat.le_of_not_lt fun late => ?_)⟩
    rcases Nat.lt_or_eq_of_le (Nat.le_of_lt_succ upper) with earlier | rfl
    · have calm := completed.calm j (by omega) earlier
      rw [clkRst_of_calm calm, Option.some_inj, decide_eq_true_eq] at high
      rcases high with rest | reset
      · exact completed.not_restarts (by omega) earlier (.inl rest)
      · cases completed.place (by omega) earlier.le with
        | resetting within _ => exact absurd within (Nat.not_le_of_lt late)
        | unlocked _ waits => rcases waits with waits | waits <;> cases waits.symm.trans reset
        | released _ released => cases released.symm.trans reset
    · cases ((outputsAgree_before generics wave (j + 1)) released).1.symm.trans high
  have counted := Finset.card_le_card inside
  rwa [Nat.card_Ico, Nat.add_sub_add_right] at counted

/-- Which edges trigger without harm: a missed loss is one that leaves less of `R1`, or nothing. -/
theorem Completed.le_of_not_missed (completed : Completed generics wave r q n) {t : Nat}
    (after : r < t) (within : t < n) (kept : ¬Missed generics wave t)
    (triggers : Triggers wave t) : generics.clkCycles ≤ resetEnds generics r - t := by
  have calm := completed.calm t after within
  have lost : LostLock wave t := by
    rcases triggers with pulse | forced | lost
    · cases calm.1.symm.trans pulse
    · cases calm.2.symm.trans forced
    · exact lost
  cases completed.place after within.le with
  | resetting _ counting =>
    by_contra less
    have left := counting.left
    exact kept ⟨calm.1, calm.2, lost, .inl ⟨counting.state, by omega⟩⟩
  | unlocked _ waits => exact absurd ⟨calm.1, calm.2, lost, .inr waits⟩ kept
  | released later _ => cases (completed.locks t later within).symm.trans lost.2.2

/-- Without a missed loss the lock holds from the edge at which it was seen. -/
theorem Completed.locked_of_not_missed (completed : Completed generics wave r q n)
    (kept : ∀ j, r < j → j < n → ¬Missed generics wave j) {j : Nat} (after : q ≤ j)
    (within : j < n) : (wave j).dcmLocked = true := by
  have seen := completed.seen
  have began : r < resetEnds generics r := by unfold resetEnds; omega
  induction j, after using Nat.le_induction with
  | base => exact completed.locked
  | succ j after inductionHypothesis =>
    have before := inductionHypothesis (Nat.lt_of_succ_lt within)
    by_contra lost
    have loss : LostLock wave (j + 1) := ⟨j.succ_pos, before, Bool.eq_false_of_not_eq_true lost⟩
    have calm := completed.calm (j + 1) (by omega) within
    cases completed.place (i := j + 1) (by omega) within.le with
    | resetting early _ => omega
    | unlocked _ waits =>
      exact kept (j + 1) (by omega) within ⟨calm.1, calm.2, loss, .inr waits⟩
    | released later _ => exact lost (completed.locks (j + 1) later within)

theorem Completed.sequenced (completed : Completed generics wave r q n)
    (kept : ∀ j, r < j → j < n → ¬Missed generics wave j) : Sequenced generics wave n := by
  have seen := completed.seen
  have behind := completed.behind
  have later := completed.later
  have ends : resetEnds generics r = r + generics.clkCycles + 2 := rfl
  have settles : settleEnds generics q = q + generics.gblCycles + 2 := rfl
  have whole : ∀ first, first ≤ r + 1 →
      generics.clkCycles ≤ clkRstEdges generics wave first (n + 1) := by
    intro first early
    have counted := completed.le_clkRstEdges le_rfl
    have more := clkRstEdges_mono generics wave early (n + 1)
    omega
  refine ⟨by omega, fun j before recent => ⟨?_, ?_⟩, whole 0 (Nat.zero_le _),
    fun t before triggers => ?_⟩
  · exact (completed.calm j (by omega) before).2
  · exact completed.locked_of_not_missed kept (by omega) before
  · rcases Nat.lt_or_ge r t with after | early
    · have enough := completed.le_of_not_missed after before (kept t after before) triggers
      exact enough.trans (completed.le_clkRstEdges after.le)
    · exact whole (t + 1) (Nat.succ_le_succ early)

/-- The condition is about the running sequence. -/
theorem Completed.undisturbed_iff (completed : Completed generics wave r q n) :
    Undisturbed generics wave n ↔ ∀ j, r < j → j < n → ¬Missed generics wave j := by
  have began : Restarts generics wave r := completed.begins.2.imp id .inl
  constructor
  · rintro ⟨_, answered⟩ j after before missed
    obtain ⟨i, later, within, restarts⟩ := answered j before missed
    exact completed.not_restarts (after.trans later) within restarts
  · intro kept
    refine ⟨?_, fun j before missed => ?_⟩
    · rw [completed.keeps n completed.behind le_rfl]
      nofun
    · rcases Nat.lt_trichotomy j r with early | rfl | after
      · exact ⟨r, early, completed.later, began⟩
      · obtain ⟨quiet, _, _, states⟩ := missed
        have rest := completed.begins.2.resolve_right (by rw [quiet]; exact Bool.false_ne_true)
        rw [rest] at states
        rcases states with ⟨reset, _⟩ | wait | settle
        · cases reset
        · cases wait
        · cases settle
      · exact absurd missed (kept j after before)

/-- Every loss that was missed is seen in what the clock generator was promised. -/
theorem Completed.not_missed (completed : Completed generics wave r q n)
    (released : Released generics wave n) (promised : 0 < generics.clkCycles)
    (sequenced : Sequenced generics wave n) {j : Nat} (after : r < j) (within : j < n) :
    ¬Missed generics wave j := by
  rintro ⟨_, _, lost, states⟩
  have promise := sequenced.restarted j within (.inr (.inr lost))
  have counted := completed.clkRstEdges_le released after.le
  cases completed.place after within.le with
  | resetting _ counting =>
    have left := counting.left
    rcases states with ⟨_, less⟩ | wait | settle
    · omega
    · cases counting.state.symm.trans wait
    · cases counting.state.symm.trans settle
  | unlocked later _ => omega
  | released later _ => cases (completed.locks j later within).symm.trans lost.2.2

/-! ### Releases -/

/-- The reset of the design is released by an edge in `R4`, or it stays released while `FORCE_RST`
is held. -/
theorem Released.cases (released : Released generics wave n) :
    (before generics wave n).rstState = .r4 ∨
      (before generics wave n).globalRst = some false ∧
        (before generics wave n).rstState = .r0 := by
  unfold Released at released
  rw [before_succ] at released
  cases forced : (wave n).forceRst with
  | true =>
    rw [step_of_force forced] at released
    have kept : (before generics wave n).globalRst = some false := released
    exact ((outputsAgree_before generics wave n) kept).2.symm.imp id fun rest => ⟨kept, rest⟩
  | false =>
    cases pulse : (wave n).pulse with
    | true =>
      rw [step_of_begins forced (.inr pulse)] at released
      cases released
    | false =>
      rw [step_of_calm ⟨pulse, forced⟩, clock_globalRst, Option.some_inj,
        decide_eq_false_iff_not, not_not] at released
      exact .inl released

theorem exists_completed (state : (before generics wave n).rstState = .r4) :
    ∃ r q, Completed generics wave r q n := by
  cases stage generics wave n with
  | forced rest => cases state.symm.trans rest
  | resetting r sequence within =>
    cases state.symm.trans (sequence.resets n sequence.later le_rfl within).state
  | waiting r sequence later waits => cases state.symm.trans (waits n later le_rfl)
  | settling r q _ _ _ _ behind _ settles =>
    cases state.symm.trans (settles n behind le_rfl).state
  | released r q completed => exact ⟨r, q, completed⟩

/-- A released reset in `R0` comes from a trigger at the edge before. -/
theorem trigger_of_rest (released : (before generics wave n).globalRst = some false)
    (rest : (before generics wave n).rstState = .r0) :
    ∃ m, n = m + 1 ∧ ((wave m).forceRst = true ∨ (wave m).dcmLocked = false) := by
  cases n with
  | zero => cases released
  | succ m =>
    refine ⟨m, rfl, or_iff_not_imp_left.mpr fun quiet => ?_⟩
    have forced := Bool.eq_false_of_not_eq_true quiet
    rw [before_succ] at released rest
    cases pulse : (wave m).pulse with
    | true =>
      rw [step_of_begins forced (.inr pulse)] at rest
      cases rest
    | false =>
      rw [step_of_calm ⟨pulse, forced⟩] at released rest
      rw [clock_globalRst, Option.some_inj, decide_eq_false_iff_not, not_not] at released
      rw [clock, released] at rest
      cases locked : (wave m).dcmLocked with
      | false => rfl
      | true => simp [locked] at rest

/-- While the reset of the design is released the sequence has done what it promises, provided that
it was not disturbed; and, where the header promises some edges of both kinds, only then. -/
theorem sequenced_iff (released : Released generics wave n) :
    (Undisturbed generics wave n → Sequenced generics wave n) ∧
      (0 < generics.clkCycles → 0 < generics.gblCycles →
        Sequenced generics wave n → Undisturbed generics wave n) := by
  rcases released.cases with state | ⟨kept, rest⟩
  · obtain ⟨r, q, completed⟩ := exists_completed state
    rw [completed.undisturbed_iff]
    exact ⟨completed.sequenced, fun promised _ sequenced j after within =>
      completed.not_missed released promised sequenced after within⟩
  · refine ⟨fun undisturbed => absurd rest undisturbed.1, fun _ promised sequenced => ?_⟩
    obtain ⟨m, rfl, trigger⟩ := trigger_of_rest kept rest
    obtain ⟨unforced, locked⟩ := sequenced.steady m m.lt_succ_self (Nat.add_le_add_left promised m)
    rcases trigger with forced | lost
    · cases forced.symm.trans unforced
    · cases lost.symm.trans locked

end Law

/-! ### Delays of two edges -/

/-- Both delay counts are one in a counter that goes up to three. -/
def shortCounts : ResetGenerics := ⟨1, 1, 3, by decide, by decide, by decide, by decide⟩

/-- Locked all the time, the design is released at edge 10 as promised. -/
theorem sequenced_of_locked :
    Released shortCounts (fun _ => ⟨false, false, true⟩) 10 ∧
      Sequenced shortCounts (fun _ => ⟨false, false, true⟩) 10 := by
  have released : Released shortCounts (fun _ => ⟨false, false, true⟩) 10 := by
    unfold Released
    decide
  refine ⟨released, (sequenced_iff released).1 ⟨by decide, fun j _ missed => ?_⟩⟩
  cases missed.2.2.1.2.2

/-- Without the lock at edge 8 it is released at edge 10 all the same, and with `FORCE_RST` high at
edges 12 and 13 it stays released. -/
theorem released_unsequenced :
    (Released shortCounts (fun n => ⟨false, false, decide (n ≠ 8)⟩) 10 ∧
        ¬Sequenced shortCounts (fun n => ⟨false, false, decide (n ≠ 8)⟩) 10) ∧
      Released shortCounts (fun n => ⟨false, decide (n = 12 ∨ n = 13), true⟩) 13 ∧
        ¬Sequenced shortCounts (fun n => ⟨false, decide (n = 12 ∨ n = 13), true⟩) 13 := by
  unfold Released
  refine ⟨⟨by decide, fun sequenced => ?_⟩, by decide, fun sequenced => ?_⟩
  · exact absurd (sequenced.steady 8 (by decide) (by decide)).2 (by decide)
  · exact absurd (sequenced.steady 12 (by decide) (by decide)).1 (by decide)

end K71GbE.GlobalResetter
