/-
This file is about counters that run down to zero again and again.

At every clock the counter goes down by one, and from zero it starts again at
`period - 1`. At some clocks another value may be loaded into it; what it does
between two loads is known from the value at the first of them.
-/

import Mathlib.Algebra.Order.Ring.Nat
import Mathlib.Algebra.Ring.Nat

namespace Clocked

/-- What is left to count at each clock; the clocks that load another value are left open. -/
structure Countdown (period : Nat) (loads : Nat → Prop) (left : Nat → Nat) : Prop where
  positive : 0 < period
  step : ∀ k, ¬loads (k + 1) → left (k + 1) = if left k = 0 then period - 1 else left k - 1

namespace Countdown

variable {period : Nat} {loads : Nat → Prop} {left : Nat → Nat}
  (countdown : Countdown period loads left)

include countdown

/-- Without a load the counter goes down to zero. -/
theorem down {s m : Nat} (quiet : ∀ i, s < i → i ≤ s + m → ¬loads i) (inside : m ≤ left s) :
    left (s + m) = left s - m := by
  induction m with
  | zero => rfl
  | succ m inductionHypothesis =>
    have before := inductionHypothesis (fun i after within => quiet i after (by omega)) (by omega)
    rw [← Nat.add_assoc, countdown.step _ (quiet _ (by omega) (by omega)), before,
      if_neg (by omega)]
    omega

/-- The clock behind zero starts a new period. -/
theorem restart {e : Nat} (ends : left e = 0) (quiet : ¬loads (e + 1)) :
    left (e + 1) = period - 1 := by
  rw [countdown.step e quiet, if_pos ends]

/-- Between two zeros the counter is where the period has brought it. -/
theorem within {e m : Nat} (ends : left e = 0) (quiet : ∀ i, e < i → ¬loads i)
    (ahead : 0 < m) (inside : m ≤ period) : left (e + m) = period - m := by
  have starts := countdown.restart ends (quiet _ (Nat.lt_succ_self e))
  have later := countdown.down (s := e + 1) (m := m - 1) (fun i after _ => quiet i (by omega))
    (by omega)
  rw [show e + 1 + (m - 1) = e + m by omega, starts] at later
  omega

theorem rounds {e : Nat} (ends : left e = 0) (quiet : ∀ i, e < i → ¬loads i) (q : Nat) :
    left (e + period * q) = 0 := by
  induction q with
  | zero => exact ends
  | succ q inductionHypothesis =>
    have round := countdown.within inductionHypothesis (fun i after => quiet i (by omega))
      countdown.positive le_rfl
    rwa [Nat.sub_self, Nat.add_assoc, ← Nat.mul_succ] at round

/-- From a zero on, the counter is at zero exactly at whole periods. -/
theorem zero_iff {e m : Nat} (ends : left e = 0) (quiet : ∀ i, e < i → ¬loads i) :
    left (e + m) = 0 ↔ period ∣ m := by
  have positive := countdown.positive
  have small := Nat.mod_lt m positive
  have start := countdown.rounds ends quiet (m / period)
  rw [Nat.dvd_iff_mod_eq_zero]
  rcases Nat.eq_zero_or_pos (m % period) with full | part
  · have whole := Nat.div_add_mod m period
    rw [full, Nat.add_zero] at whole
    rw [whole] at start
    simp only [start, full]
  · have inside := countdown.within start (fun i after => quiet i (by omega)) part small.le
    rw [Nat.add_assoc, Nat.div_add_mod] at inside
    rw [inside]
    omega

end Countdown

end Clocked
