/-
This file is about endless schedules, and how a machine is shown to get
somewhere under one.

A run under an endless schedule is the family of the runs over its beginnings.
What the machine waits for, and keeps waiting for until it comes, is met when it
comes eventually. A goal is reached when from every moment before it a measure in
a well-founded order gets smaller.
-/

import K71GbE.Clocked.Machine
import Mathlib.Data.Nat.Count
import Mathlib.Order.WellFounded

namespace Clocked

variable {State Input : Type*}

/-- The inputs of the first `n` edges of an endless schedule. -/
def upTo (inputs : Nat → Input) (n : Nat) : List Input := (List.range n).map inputs

theorem upTo_succ (inputs : Nat → Input) (n : Nat) :
    upTo inputs (n + 1) = upTo inputs n ++ [inputs n] := by
  rw [upTo, List.range_succ, List.map_append, List.map_singleton, upTo]

/-- What is logged stays logged. -/
theorem log_upTo_prefix {Event : Type*} (step : State → Input → State)
    (observe : State → Input → List Event) (state : State) (inputs : Nat → Input) {n m : Nat}
    (later : n ≤ m) :
    log step observe state (upTo inputs n) <+: log step observe state (upTo inputs m) := by
  obtain ⟨gap, rfl⟩ := Nat.exists_eq_add_of_le later
  induction gap with
  | zero => exact List.prefix_refl _
  | succ gap inductionHypothesis =>
    rw [← Nat.add_assoc, upTo_succ, log_concat]
    exact (inductionHypothesis (Nat.le_add_right _ _)).trans (List.prefix_append _ _)

/-- What happens again and again happens as often as one likes. -/
theorem exists_countP_le {event : Input → Bool} {inputs : Nat → Input}
    (often : ∀ n, ∃ m, n ≤ m ∧ event (inputs m) = true) (count : Nat) :
    ∃ n, ∀ m, n ≤ m → count ≤ (upTo inputs m).countP event := by
  induction count with
  | zero => exact ⟨0, fun _ _ => Nat.zero_le _⟩
  | succ count inductionHypothesis =>
    obtain ⟨n, before⟩ := inductionHypothesis
    obtain ⟨m, later, happens⟩ := often n
    refine ⟨m + 1, fun last after => ?_⟩
    obtain ⟨gap, rfl⟩ := Nat.exists_eq_add_of_le after
    induction gap with
    | zero =>
      rw [Nat.add_zero, upTo_succ, List.countP_append, List.countP_singleton, if_pos happens]
      exact Nat.succ_le_succ (before m later)
    | succ gap more =>
      rw [← Nat.add_assoc, upTo_succ, List.countP_append]
      exact (more (Nat.le_add_right _ _)).trans (Nat.le_add_right _ _)

/-- A condition that every admitted beginning extends holds along every beginning. -/
theorem along_upTo {step : State → Input → State} {admits : State → Input → Prop} {state : State}
    {inputs : Nat → Input}
    (extended : ∀ n, Along step admits state (upTo inputs n) →
      admits (run step state (upTo inputs n)) (inputs n)) (n : Nat) :
    Along step admits state (upTo inputs n) := by
  induction n with
  | zero => trivial
  | succ n inductionHypothesis =>
    rw [upTo_succ, along_concat]
    exact ⟨inductionHypothesis, extended n inductionHypothesis⟩

/-- What waits for an event that comes is still waiting when it comes. -/
theorem exists_waiting_event (waiting : Nat → Prop) {event : Nat → Prop} {n : Nat} (now : waiting n)
    (stays : ∀ m, waiting m → ¬event m → waiting (m + 1)) (comes : ∃ m, n ≤ m ∧ event m) :
    ∃ m, n ≤ m ∧ waiting m ∧ event m := by
  obtain ⟨m, later, met⟩ := comes
  obtain ⟨gap, rfl⟩ := Nat.exists_eq_add_of_le later
  induction gap generalizing n with
  | zero => exact ⟨n, le_rfl, now, met⟩
  | succ gap inductionHypothesis =>
    by_cases here : event n
    · exact ⟨n, le_rfl, now, here⟩
    · have shifted : n + (gap + 1) = n + 1 + gap := by omega
      obtain ⟨m, after, both⟩ :=
        inductionHypothesis (stays n now here) (Nat.le_add_right _ _) (shifted ▸ met)
      exact ⟨m, Nat.le_of_succ_le after, both⟩

/-- What counts down with an event that comes again and again gets to its end. -/
theorem exists_counted_down {waits : Nat → Nat → Prop} {event : Nat → Prop}
    (stays : ∀ k n, waits (k + 1) n → ¬event n → waits (k + 1) (n + 1))
    (falls : ∀ k n, waits (k + 1) n → event n → ∃ j ≤ k, waits j (n + 1))
    (often : ∀ n, ∃ m, n ≤ m ∧ event m) {k n : Nat} (now : waits k n) :
    ∃ m, n ≤ m ∧ waits 0 m := by
  induction k using Nat.strong_induction_on generalizing n with
  | _ k inductionHypothesis =>
    cases k with
    | zero => exact ⟨n, le_rfl, now⟩
    | succ k =>
      obtain ⟨m, later, waiting, happens⟩ :=
        exists_waiting_event (waits (k + 1)) now (stays k) (often n)
      obtain ⟨j, less, next⟩ := falls k m waiting happens
      obtain ⟨last, after, ended⟩ := inductionHypothesis j (Nat.lt_succ_of_le less) next
      exact ⟨last, later.trans (Nat.le_of_succ_le after), ended⟩

/-- A goal is reached when the measure gets smaller from every moment before it. -/
theorem exists_goal {Measure : Type*} [LT Measure] [WellFoundedLT Measure]
    (measure : Nat → Measure) {goal : Nat → Prop}
    (progress : ∀ n, ¬goal n → ∃ m, measure m < measure n) (n : Nat) : ∃ m, goal m := by
  induction reached : measure n using WellFoundedLT.induction generalizing n with
  | ind value inductionHypothesis =>
    by_cases here : goal n
    · exact ⟨n, here⟩
    · obtain ⟨m, smaller⟩ := progress n here
      exact inductionHypothesis (measure m) (reached ▸ smaller) m rfl

/-- An event has not happened between two moments exactly when its count is the same at both. -/
theorem count_eq_count_iff {event : Nat → Prop} [DecidablePred event] {first last : Nat}
    (later : first ≤ last) :
    Nat.count event last = Nat.count event first ↔
      ∀ n, first ≤ n → n < last → ¬event n := by
  obtain ⟨gap, rfl⟩ := Nat.exists_eq_add_of_le later
  rw [Nat.count_add, Nat.add_eq_left, Nat.count_iff_forall_not]
  constructor
  · intro never n after early
    have shifted := never (n - first) (by omega)
    rwa [Nat.add_sub_cancel' after] at shifted
  · exact fun never k inside =>
      never (first + k) (Nat.le_add_right _ _) (Nat.add_lt_add_left inside _)

end Clocked
