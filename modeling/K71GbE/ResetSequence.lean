/-
This file is about the whole sequence of `GlobalResetter` and what it promises once
the reset of the design is released.

The edges of a sequence are known from where it begins and from the edge at which the
lock is seen: `R1` takes two edges more than the header says, and so does `R3`. What is
promised of the lock then depends on its losses alone, which `R1`, `R2` and `R3` do not
look at.
-/

import K71GbE.GlobalResetter

namespace K71GbE.GlobalResetter

open Clocked

section Runs

variable (generics : ResetGenerics) (wave : Nat → ResetInput)

/-- The registers before edge `n`. -/
def before (n : Nat) : GlobalResetter := run (step generics) powerOn (upTo wave n)

theorem before_succ (n : Nat) :
    before generics wave (n + 1) = (before generics wave n).step generics (wave n) := by
  rw [before, upTo_succ, run_concat, before]

theorem outputsAgree_before (n : Nat) : (before generics wave n).OutputsAgree :=
  run_always OutputsAgree (fun _ input agree => agree.step input)
    (fun released => by cases released) _

/-- `FORCE_RST` is low between the edges of a stretch, and at them. -/
def Calm (first last : Nat) : Prop :=
  ∀ j, first ≤ j → j < last → (wave j).pulse = false ∧ (wave j).forceRst = false

/-- The edge leaves `R0`. -/
def Begins (r : Nat) : Prop :=
  (wave r).forceRst = false ∧
    ((before generics wave r).rstState = .r0 ∨ (wave r).pulse = true)

/-- The counter of `R1` or of `R3` is on its way to zero. -/
structure Counting (phase : RstState) (ends n : Nat) : Prop where
  state : (before generics wave n).rstState = phase
  range : (before generics wave n).rstCtr ≤ generics.cntRangeHigh
  left : n + generics.left (before generics wave n).rstCtr = ends

/-- The last edge of `R1`. -/
def resetEnds (r : Nat) : Nat := r + generics.clkCycles + 2

/-- The last edge of `R3`. -/
def settleEnds (q : Nat) : Nat := q + generics.gblCycles + 2

/-- A sequence that began at edge `r` goes on, first in `R1`. -/
structure Sequence (r n : Nat) : Prop where
  begins : Begins generics wave r
  later : r < n
  calm : Calm wave (r + 1) n
  resets : ∀ j, r < j → j ≤ n → j ≤ resetEnds generics r →
    Counting generics wave .r1 (resetEnds generics r) j

/-- A sequence that began at edge `r` and saw the lock at edge `q` has come to `R4`. -/
structure Completed (r q n : Nat) : Prop extends Sequence generics wave r n where
  seen : resetEnds generics r < q
  waits : ∀ j, resetEnds generics r < j → j ≤ q → (before generics wave j).rstState = .r2
  locked : (wave q).dcmLocked = true
  behind : settleEnds generics q < n
  settles : ∀ j, q < j → j ≤ settleEnds generics q →
    Counting generics wave .r3 (settleEnds generics q) j
  keeps : ∀ j, settleEnds generics q < j → j ≤ n → (before generics wave j).rstState = .r4
  locks : ∀ j, settleEnds generics q < j → j < n → (wave j).dcmLocked = true

/-- Where the machine is before edge `n`, and how it came there. -/
inductive Stage (n : Nat) : Prop
  | forced (state : (before generics wave n).rstState = .r0)
  | resetting (r : Nat) (sequence : Sequence generics wave r n) (within : n ≤ resetEnds generics r)
  | waiting (r : Nat) (sequence : Sequence generics wave r n) (later : resetEnds generics r < n)
      (waits : ∀ j, resetEnds generics r < j → j ≤ n → (before generics wave j).rstState = .r2)
  | settling (r q : Nat) (sequence : Sequence generics wave r n) (later : resetEnds generics r < q)
      (waits : ∀ j, resetEnds generics r < j → j ≤ q → (before generics wave j).rstState = .r2)
      (locked : (wave q).dcmLocked = true) (behind : q < n) (within : n ≤ settleEnds generics q)
      (settles : ∀ j, q < j → j ≤ n → Counting generics wave .r3 (settleEnds generics q) j)
  | released (r q : Nat) (completed : Completed generics wave r q n)

end Runs

section Steps

variable {generics : ResetGenerics} {wave : Nat → ResetInput} {n : Nat}

/-- What holds up to an edge, and at the next, holds up to the next. -/
theorem forall_le_succ {first last : Nat} {holds : Nat → Prop}
    (upToLast : ∀ j, first < j → j ≤ last → holds j) (next : holds (last + 1)) :
    ∀ j, first < j → j ≤ last + 1 → holds j := by
  intro j after within
  rcases Nat.lt_or_eq_of_le within with earlier | rfl
  · exact upToLast j after (Nat.le_of_lt_succ earlier)
  · exact next

theorem forall_lt_succ {last : Nat} {since holds : Nat → Prop}
    (upToLast : ∀ j, since j → j < last → holds j) (next : holds last) :
    ∀ j, since j → j < last + 1 → holds j := by
  intro j after within
  rcases Nat.lt_or_eq_of_le (Nat.le_of_lt_succ within) with earlier | rfl
  · exact upToLast j after earlier
  · exact next

theorem before_succ_of_calm (calm : (wave n).pulse = false ∧ (wave n).forceRst = false) :
    before generics wave (n + 1) = (before generics wave n).clock generics (wave n).dcmLocked := by
  rw [before_succ, step_of_calm calm]

/-- The edge that leaves `R0` starts the counter of `R1`. -/
theorem Begins.counting {r : Nat} (begins : Begins generics wave r) :
    Counting generics wave .r1 (resetEnds generics r) (r + 1) := by
  have next : before generics wave (r + 1) =
      ⟨.r1, generics.clkResetDelayCnt, some true, some true⟩ := by
    rw [before_succ, step_of_begins begins.1 begins.2]
  refine ⟨?_, ?_, ?_⟩ <;> rw [next]
  · exact generics.clk_le
  · rw [generics.left_delay generics.clk_pos generics.clk_le, resetEnds, ResetGenerics.clkCycles]
    omega

/-- An edge that is not the last one counts. -/
theorem Counting.next {phase : RstState} {ends : Nat}
    (counting : Counting generics wave phase ends n) (phases : phase = .r1 ∨ phase = .r3)
    (calm : (wave n).pulse = false ∧ (wave n).forceRst = false) (more : n < ends) :
    Counting generics wave phase ends (n + 1) := by
  obtain ⟨state, range, left⟩ := counting
  have nonzero : (before generics wave n).rstCtr ≠ 0 := fun zero => by
    rw [(generics.left_eq_zero range).mpr zero] at left
    omega
  have counts : ((before generics wave n).clock generics (wave n).dcmLocked).rstState = phase ∧
      ((before generics wave n).clock generics (wave n).dcmLocked).rstCtr =
        generics.next (before generics wave n).rstCtr := by
    rw [clock, state]
    rcases phases with rfl | rfl <;> simp [nonzero]
  rw [← before_succ_of_calm calm] at counts
  refine ⟨counts.1, counts.2 ▸ generics.next_le range, ?_⟩
  have one := generics.left_next range nonzero
  rw [counts.2]
  omega

/-- The last edge finds the counter at zero. -/
theorem Counting.last {phase : RstState} (counting : Counting generics wave phase n n) :
    (before generics wave n).rstCtr = 0 :=
  (generics.left_eq_zero counting.range).mp (Nat.add_eq_left.mp counting.left)

theorem Begins.sequence {r : Nat} (begins : Begins generics wave r) :
    Sequence generics wave r (r + 1) where
  begins := begins
  later := r.lt_succ_self
  calm j first last := absurd last (Nat.not_lt_of_le first)
  resets j after within _ := by
    rw [Nat.le_antisymm within after]
    exact begins.counting

theorem Begins.stage (begins : Begins generics wave n) : Stage generics wave (n + 1) :=
  .resetting n begins.sequence (by unfold resetEnds; omega)

/-- A sequence goes on without another `FORCE_RST`. -/
theorem Sequence.next {r : Nat} (sequence : Sequence generics wave r n)
    (calm : (wave n).pulse = false ∧ (wave n).forceRst = false) :
    Sequence generics wave r (n + 1) where
  begins := sequence.begins
  later := Nat.lt_succ_of_lt sequence.later
  calm := forall_lt_succ sequence.calm calm
  resets := forall_le_succ sequence.resets fun inside =>
    (sequence.resets n sequence.later le_rfl (Nat.le_of_succ_le inside)).next (.inl rfl) calm inside

/-- The edge behind which `R1` is left. -/
theorem Counting.leaves_r1 (counting : Counting generics wave .r1 n n)
    (calm : (wave n).pulse = false ∧ (wave n).forceRst = false) :
    (before generics wave (n + 1)).rstState = .r2 := by
  rw [before_succ_of_calm calm, clock, counting.state]
  simp [counting.last]

/-- The edge behind which `R3` is left. -/
theorem Counting.leaves_r3 (counting : Counting generics wave .r3 n n)
    (calm : (wave n).pulse = false ∧ (wave n).forceRst = false) :
    (before generics wave (n + 1)).rstState = .r4 := by
  rw [before_succ_of_calm calm, clock, counting.state]
  simp [counting.last]

/-- The edge at which the lock is seen starts the counter of `R3`. -/
theorem counting_of_locked (calm : (wave n).pulse = false ∧ (wave n).forceRst = false)
    (waits : (before generics wave n).rstState = .r2) (locked : (wave n).dcmLocked = true) :
    Counting generics wave .r3 (settleEnds generics n) (n + 1) := by
  have state : (before generics wave (n + 1)).rstState = .r3 := by
    rw [before_succ_of_calm calm, clock, waits, locked]
    rfl
  have counter : (before generics wave (n + 1)).rstCtr = generics.gblResetDelayCnt := by
    rw [before_succ_of_calm calm, clock, waits]
  refine ⟨state, counter ▸ generics.gbl_le, ?_⟩
  rw [counter, generics.left_delay generics.gbl_pos generics.gbl_le, settleEnds,
    ResetGenerics.gblCycles]
  omega

/-- One edge without `FORCE_RST`, in every state. -/
theorem Stage.next (stage : Stage generics wave n)
    (calm : (wave n).pulse = false ∧ (wave n).forceRst = false) :
    Stage generics wave (n + 1) := by
  cases stage with
  | forced state => exact Begins.stage ⟨calm.2, .inl state⟩
  | resetting r sequence within =>
    rcases Nat.lt_or_eq_of_le within with more | last
    · exact .resetting r (sequence.next calm) more
    · have counting := sequence.resets n sequence.later le_rfl within
      rw [← last] at counting
      refine .waiting r (sequence.next calm) (by omega) fun j after before => ?_
      rw [Nat.le_antisymm before (last ▸ after)]
      exact counting.leaves_r1 calm
  | waiting r sequence later waits =>
    have state := waits n later le_rfl
    cases locked : (wave n).dcmLocked with
    | false =>
      refine .waiting r (sequence.next calm) (Nat.lt_succ_of_lt later) (forall_le_succ waits ?_)
      rw [before_succ_of_calm calm, clock, state, locked]
      rfl
    | true =>
      refine .settling r n (sequence.next calm) later waits locked n.lt_succ_self
        (by unfold settleEnds; omega) fun j after before => ?_
      rw [Nat.le_antisymm before after]
      exact counting_of_locked calm state locked
  | settling r q sequence later waits locked behind within settles =>
    have counting := settles n behind le_rfl
    rcases Nat.lt_or_eq_of_le within with more | last
    · exact .settling r q (sequence.next calm) later waits locked (Nat.lt_succ_of_lt behind) more
        (forall_le_succ settles (counting.next (.inr rfl) calm more))
    · refine .released r q ⟨sequence.next calm, later, waits, locked, by omega, last ▸ settles,
        fun j after before => ?_, fun j after before => absurd before (by omega)⟩
      rw [← last] at counting
      rw [Nat.le_antisymm before (last ▸ after)]
      exact counting.leaves_r3 calm
  | released r q completed =>
    have state := completed.keeps n completed.behind le_rfl
    cases kept : (wave n).dcmLocked with
    | false =>
      refine .forced ?_
      rw [before_succ_of_calm calm, clock, state, kept]
      rfl
    | true =>
      have next : (before generics wave (n + 1)).rstState = .r4 := by
        rw [before_succ_of_calm calm, clock, state, kept]
        rfl
      exact .released r q { completed with
        toSequence := completed.toSequence.next calm
        behind := Nat.lt_succ_of_lt completed.behind
        keeps := forall_le_succ completed.keeps next
        locks := forall_lt_succ completed.locks kept }

theorem stage (generics : ResetGenerics) (wave : Nat → ResetInput) (n : Nat) :
    Stage generics wave n := by
  induction n with
  | zero => exact .forced rfl
  | succ n inductionHypothesis =>
    cases forced : (wave n).forceRst with
    | true =>
      refine .forced ?_
      rw [before_succ, step_of_force forced]
      rfl
    | false =>
      cases pulse : (wave n).pulse with
      | true => exact Begins.stage ⟨forced, .inr pulse⟩
      | false => exact inductionHypothesis.next ⟨pulse, forced⟩

end Steps

end K71GbE.GlobalResetter
