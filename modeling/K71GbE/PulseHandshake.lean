/-
This file is about the handshake of `pulse2pulse` between clocks of any ratio and
phase.

The eight registers of the handshake form a ring: the request, its three copies in
the other domain, the acknowledge and its three copies back. A change of the
request travels around it one register at a time, each register waiting for its
own clock, so the converter is always at one of sixteen positions. A request is
taken where the ring returns to its start, and the pulse is out at one position
alone.
-/

import K71GbE.Clocked.Progress
import K71GbE.Pulse2pulse

namespace K71GbE

open Clocked

namespace Pulse2pulse

/-- One instant: which clocks rise, and the level of `pulsein`. -/
structure Edge where
  inClk : Bool
  outClk : Bool
  pulsein : Bool
deriving DecidableEq, Repr

/-- The converter after the instant, with `rst` low. -/
def step (pulse : Pulse2pulse) (edge : Edge) : Pulse2pulse :=
  pulse.clock edge.inClk edge.outClk false edge.pulsein

/-- The converter before the `n`th instant of an endless schedule that starts in reset. -/
def before (edges : Nat → Edge) (n : Nat) : Pulse2pulse := run step reset (upTo edges n)

theorem before_succ (edges : Nat → Edge) (n : Nat) :
    before edges (n + 1) = (before edges n).step (edges n) := by
  rw [before, upTo_succ, run_concat, before]

/-- A request is accepted: `pulsein` is sampled high while `inbusy` is low. -/
def Accepts (edges : Nat → Edge) (n : Nat) : Prop :=
  (edges n).inClk ∧ (edges n).pulsein ∧ (before edges n).inbusy = false

/-- `pulseout` rises. -/
def Rises (edges : Nat → Edge) (n : Nat) : Prop :=
  (before edges n).outProc.pulseout = false ∧ (before edges (n + 1)).outProc.pulseout = true

instance (edges : Nat → Edge) : DecidablePred (Accepts edges) := fun _ =>
  inferInstanceAs (Decidable (_ ∧ _ ∧ _))

instance (edges : Nat → Edge) : DecidablePred (Rises edges) := fun _ =>
  inferInstanceAs (Decidable (_ ∧ _))

/-- The requests accepted before the `n`th instant. -/
def accepted (edges : Nat → Edge) (n : Nat) : Nat := Nat.count (Accepts edges) n

/-- The pulses that began before the `n`th instant. -/
def emitted (edges : Nat → Edge) (n : Nat) : Nat := Nat.count (Rises edges) n

/-- The pulse that begins at the `n`th instant begins with an edge of `out_clk` and lasts to the
next one. -/
def OneWide (edges : Nat → Edge) (n : Nat) : Prop :=
  (edges n).outClk ∧ ∀ m, n < m → (∀ j, n < j → j < m → (edges j).outClk = false) →
    (before edges m).outProc.pulseout = true ∧
      ((edges m).outClk → (before edges (m + 1)).outProc.pulseout = false)

/-! ### The ring of sixteen positions -/

/-- Register `j` of the ring is high for eight positions, from position `j` on. -/
def up (position j : Nat) : Bool := decide (j ≤ position ∧ position < j + 8)

/-- The registers at a position of the ring. -/
def ring (position : Nat) : Pulse2pulse where
  inProc := ⟨up position 0, up position 5, up position 6, up position 7⟩
  outProc := ⟨up position 1, up position 2, up position 3, up position 4,
    decide (position = 3)⟩

/-- The edge that takes the ring on from a busy position. -/
def awaits (position : Nat) (edge : Edge) : Bool :=
  if position / 4 % 2 = 0 then edge.outClk else edge.inClk

/-- The next position. At the last two, where the converter is not busy, a request leads back
to the start. -/
def advance (position : Nat) (edge : Edge) : Nat :=
  if position < 14 then if awaits position edge then position + 1 else position
  else if edge.inClk then if edge.pulsein then 0 else 15
  else position

/-- The position before the `n`th instant. -/
def position (edges : Nat → Edge) (n : Nat) : Nat := run advance 15 (upTo edges n)

theorem position_succ (edges : Nat → Edge) (n : Nat) :
    position edges (n + 1) = advance (position edges n) (edges n) := by
  rw [position, upTo_succ, run_concat, position]

theorem ring_step {position : Nat} (inside : position < 16) (edge : Edge) :
    (ring position).step edge = ring (advance position edge) := by
  have all : ∀ position < 16, ∀ inClk outClk pulsein,
      (ring position).step ⟨inClk, outClk, pulsein⟩ =
        ring (advance position ⟨inClk, outClk, pulsein⟩) := by
    decide
  exact all position inside edge.inClk edge.outClk edge.pulsein

theorem advance_lt {position : Nat} (inside : position < 16) (edge : Edge) :
    advance position edge < 16 := by
  unfold advance
  split_ifs <;> omega

theorem position_lt (edges : Nat → Edge) (n : Nat) : position edges n < 16 :=
  run_always (· < 16) (fun _ edge inside => advance_lt inside edge) (by decide) (upTo edges n)

/-- The converter is the ring at its position. -/
theorem before_eq (edges : Nat → Edge) (n : Nat) : before edges n = ring (position edges n) := by
  induction n with
  | zero => rfl
  | succ n inductionHypothesis =>
    rw [before_succ, inductionHypothesis, ring_step (position_lt edges n), position_succ]

theorem inbusy_ring {position : Nat} (inside : position < 16) :
    (ring position).inbusy = decide (position < 14) := by
  revert position
  decide

theorem inbusy_before (edges : Nat → Edge) (n : Nat) :
    (before edges n).inbusy = decide (position edges n < 14) := by
  rw [before_eq, inbusy_ring (position_lt edges n)]

theorem pulseout_before (edges : Nat → Edge) (n : Nat) :
    (before edges n).outProc.pulseout = decide (position edges n = 3) := by
  rw [before_eq]
  rfl

/-! ### Requests and pulses -/

theorem accepts_iff {edges : Nat → Edge} {n : Nat} :
    Accepts edges n ↔ (edges n).inClk ∧ (edges n).pulsein ∧ 14 ≤ position edges n := by
  rw [Accepts, inbusy_before, decide_eq_false_iff_not, Nat.not_lt]

/-- The ring goes on from a busy position exactly at the edge it waits for. -/
theorem advance_of_busy {position : Nat} (busy : position < 14) (edge : Edge) :
    advance position edge = if awaits position edge then position + 1 else position :=
  if_pos busy

theorem rises_iff {edges : Nat → Edge} {n : Nat} :
    Rises edges n ↔ position edges n = 2 ∧ (edges n).outClk := by
  have all : ∀ position < 16, ∀ inClk outClk pulsein,
      (position ≠ 3 ∧ advance position ⟨inClk, outClk, pulsein⟩ = 3) ↔
        position = 2 ∧ outClk = true := by
    decide
  rw [Rises, pulseout_before, pulseout_before, position_succ, decide_eq_false_iff_not,
    decide_eq_true_eq]
  exact all _ (position_lt edges n) (edges n).inClk (edges n).outClk (edges n).pulsein

/-- A request that was accepted and has no pulse yet. -/
def owed (position : Nat) : Nat := if position < 3 then 1 else 0

/-- An edge turns what is owed into a pulse, or takes a request. -/
theorem owed_step (edges : Nat → Edge) (n : Nat) :
    (if Rises edges n then 1 else 0) + owed (position edges (n + 1)) =
      owed (position edges n) + if Accepts edges n then 1 else 0 := by
  have all : ∀ position < 16, ∀ inClk outClk pulsein,
      (if position = 2 ∧ outClk = true then 1 else 0) +
          owed (advance position ⟨inClk, outClk, pulsein⟩) =
        owed position +
          if inClk = true ∧ pulsein = true ∧ 14 ≤ position then 1 else 0 := by
    decide
  rw [position_succ, if_congr rises_iff rfl rfl, if_congr accepts_iff rfl rfl]
  exact all _ (position_lt edges n) (edges n).inClk (edges n).outClk (edges n).pulsein

/-- Every request accepted has had its pulse or is owed it. -/
theorem emitted_add_owed (edges : Nat → Edge) (n : Nat) :
    emitted edges n + owed (position edges n) = accepted edges n := by
  induction n with
  | zero => rfl
  | succ n inductionHypothesis =>
    have balance := owed_step edges n
    rw [emitted, accepted] at *
    rw [Nat.count_succ, Nat.count_succ]
    omega

theorem owed_of_idle {edges : Nat → Edge} {n : Nat} (idle : (before edges n).inbusy = false) :
    owed (position edges n) = 0 := by
  rw [inbusy_before, decide_eq_false_iff_not] at idle
  exact if_neg (by omega)

theorem emitted_of_idle {edges : Nat → Edge} {n : Nat}
    (idle : (before edges n).inbusy = false) : emitted edges n = accepted edges n := by
  rw [← emitted_add_owed, owed_of_idle idle, Nat.add_zero]

/-- The pulse is out while the ring waits at its position. -/
theorem Rises.stays {edges : Nat → Edge} {n m : Nat} (rises : Rises edges n) (later : n < m)
    (still : ∀ j, n < j → j < m → (edges j).outClk = false) : position edges m = 3 := by
  obtain ⟨two, out⟩ := rises_iff.mp rises
  induction m, later using Nat.le_induction with
  | base =>
    rw [position_succ, two, advance_of_busy (by decide)]
    exact if_pos out
  | succ m later inductionHypothesis =>
    rw [position_succ, inductionHypothesis fun j after inside => still j after (by omega),
      advance_of_busy (by decide)]
    exact if_neg (by rw [awaits, if_pos (by decide), still m later (by omega)]; decide)

theorem Rises.oneWide {edges : Nat → Edge} {n : Nat} (rises : Rises edges n) :
    OneWide edges n := by
  refine ⟨(rises_iff.mp rises).2, fun m later still => ?_⟩
  have three := rises.stays later still
  rw [pulseout_before, pulseout_before, position_succ, three]
  refine ⟨rfl, fun out => ?_⟩
  rw [advance_of_busy (by decide), if_pos (show awaits 3 (edges m) = true from out)]
  rfl

/-- At every instant the pulses are as many as the accepted requests or one less, as many when
`inbusy` is low, and every pulse is one period of `out_clk` wide. -/
theorem pulse_for_each_request (edges : Nat → Edge) (n : Nat) :
    (emitted edges n = accepted edges n ∨ emitted edges n + 1 = accepted edges n) ∧
      ((before edges n).inbusy = false → emitted edges n = accepted edges n) ∧
      (Rises edges n → OneWide edges n) := by
  refine ⟨?_, emitted_of_idle, Rises.oneWide⟩
  have balance := emitted_add_owed edges n
  unfold owed at balance
  split_ifs at balance <;> omega

/-! ### One interval of `pulsein` -/

/-- Both clocks keep running. -/
def Running (edges : Nat → Edge) : Prop :=
  ∀ n, (∃ m, n ≤ m ∧ (edges m).inClk) ∧ ∃ m, n ≤ m ∧ (edges m).outClk

/-- A maximal interval in which `pulsein` is sampled high, from the edge of `in_clk` at `first`
up to the one at `last`, which begins while `inbusy` is low. -/
structure Interval (edges : Nat → Edge) (first last : Nat) : Prop where
  begins : (edges first).inClk
  ends : (edges last).inClk
  inside : first < last
  low_before : ∀ n, n < first → (edges n).inClk →
    (∀ m, n < m → m < first → (edges m).inClk = false) → (edges n).pulsein = false
  high : ∀ n, first ≤ n → n < last → (edges n).inClk → (edges n).pulsein
  low : (edges last).pulsein = false
  idle : (before edges first).inbusy = false

/-- One pulse, one period of `out_clk` wide, for the interval: it is the one pulse between the
beginning of the interval and the first moment after it at which `inbusy` is low. -/
def OnePulse (edges : Nat → Edge) (first last : Nat) : Prop :=
  ∃ idle, last ≤ idle ∧ (before edges idle).inbusy = false ∧
    (∀ n, last ≤ n → n < idle → (before edges n).inbusy = true) ∧
    emitted edges idle = emitted edges first + 1 ∧
    ∀ n, first ≤ n → n < idle → Rises edges n → OneWide edges n

/-- The edges of a handshake: four of `out_clk`, four of `in_clk`, four of `out_clk` and two of
`in_clk`, each counted after the ones before it. -/
def meet (met : Nat) (edge : Edge) : Nat :=
  if met < 14 then if awaits met edge then met + 1 else met else met

/-- The edges of the handshake met after the instant `first` and before the `n`th. -/
def met (edges : Nat → Edge) (first n : Nat) : Nat :=
  run meet 0 ((upTo edges n).drop (first + 1))

/-- At no edge of `in_clk` in the interval have all the edges of a handshake gone by. -/
def Brief (edges : Nat → Edge) (first last : Nat) : Prop :=
  ∀ n, first < n → n < last → (edges n).inClk → met edges first n < 14

/-- While both clocks run, the converter does not stay busy. -/
theorem idle_comes {edges : Nat → Edge} (running : Running edges) (n : Nat) :
    ∃ idle, n ≤ idle ∧ (before edges idle).inbusy = false := by
  suffices reached : ∃ k, ¬position edges (n + k) < 14 by
    obtain ⟨k, idle⟩ := reached
    exact ⟨n + k, Nat.le_add_right n k, by rw [inbusy_before, decide_eq_false idle]⟩
  refine exists_goal (fun k => 14 - position edges (n + k)) (fun k unfinished => ?_) 0
  have busy : position edges (n + k) < 14 := Decidable.not_not.mp unfinished
  have stays : ∀ m, position edges m = position edges (n + k) →
      ¬awaits (position edges (n + k)) (edges m) = true →
      position edges (m + 1) = position edges (n + k) := by
    intro m here missed
    rw [position_succ, here, advance_of_busy busy, if_neg missed]
  have comes : ∃ m, n + k ≤ m ∧ awaits (position edges (n + k)) (edges m) = true := by
    unfold awaits
    split_ifs
    · exact (running (n + k)).2
    · exact (running (n + k)).1
  obtain ⟨m, later, here, met⟩ := exists_waiting_event
    (fun m => position edges m = position edges (n + k)) rfl stays comes
  refine ⟨m + 1 - n, ?_⟩
  have shifted : n + (m + 1 - n) = m + 1 := by omega
  rw [shifted, position_succ, here, advance_of_busy busy, if_pos met]
  omega

theorem met_first (edges : Nat → Edge) (first : Nat) : met edges first (first + 1) = 0 := by
  have nothingLeft : (upTo edges (first + 1)).drop (first + 1) = [] :=
    List.drop_eq_nil_of_le (by rw [upTo, List.length_map, List.length_range])
  rw [met, nothingLeft, run_nil]

theorem met_succ (edges : Nat → Edge) {first n : Nat} (later : first < n) :
    met edges first (n + 1) = meet (met edges first n) (edges n) := by
  have long : first + 1 ≤ (upTo edges n).length := by
    rw [upTo, List.length_map, List.length_range]
    exact later
  rw [met, upTo_succ, List.drop_append_of_le_length long, run_concat, met]

/-- Until a second request is accepted, the ring tells how much of the handshake is over. -/
theorem met_eq {edges : Nat → Edge} {first n : Nat} (accepts : Accepts edges first)
    (later : first < n) (once : ∀ m, first < m → m < n → ¬Accepts edges m) :
    met edges first n = min (position edges n) 14 := by
  obtain ⟨inClk, pulsein, idle⟩ := accepts_iff.mp accepts
  induction n, later using Nat.le_induction with
  | base =>
    rw [met_first, position_succ, advance, if_neg (Nat.not_lt.mpr idle), if_pos inClk,
      if_pos pulsein, Nat.zero_min]
  | succ n later inductionHypothesis =>
    have here := once n later (Nat.lt_succ_self n)
    rw [accepts_iff] at here
    rw [met_succ edges later, inductionHypothesis fun m after inside => once m after (by omega),
      position_succ]
    by_cases busy : position edges n < 14
    · rw [Nat.min_eq_left busy.le, meet, if_pos busy, advance_of_busy busy]
      split_ifs <;> omega
    · rw [Nat.min_eq_right (Nat.not_lt.mp busy), meet, if_neg (Nat.lt_irrefl 14), advance,
        if_neg busy]
      split_ifs with clocked requested
      · exact absurd ⟨clocked, requested, Nat.not_lt.mp busy⟩ here
      · rfl
      · exact (Nat.min_eq_right (Nat.not_lt.mp busy)).symm

theorem Interval.accepts {edges : Nat → Edge} {first last : Nat}
    (interval : Interval edges first last) : Accepts edges first :=
  ⟨interval.begins, interval.high first le_rfl interval.inside interval.begins, interval.idle⟩

/-- An interval is brief when no second request is accepted in it. -/
theorem Interval.brief_iff {edges : Nat → Edge} {first last : Nat}
    (interval : Interval edges first last) :
    Brief edges first last ↔ ∀ n, first + 1 ≤ n → n < last → ¬Accepts edges n := by
  constructor
  · intro brief n
    induction n using Nat.strong_induction_on with
    | _ n inductionHypothesis =>
      intro later inside accepts
      have once := met_eq interval.accepts later fun m after early =>
        inductionHypothesis m early after (lt_trans early inside)
      have few := brief n later inside accepts.1
      have idle := (accepts_iff.mp accepts).2.2
      omega
  · intro once n later inside inClk
    have busy := once n later inside
    rw [accepts_iff, not_and, not_and, Nat.not_le] at busy
    rw [met_eq interval.accepts later fun m after early => once m after (lt_trans early inside)]
    exact lt_of_le_of_lt (Nat.min_le_left _ _) (busy inClk (interval.high n later.le inside inClk))

/-- When the converter is idle again, one pulse came of the interval exactly when its first
request was the only one accepted in it. -/
theorem Interval.emitted_iff {edges : Nat → Edge} {first last idle : Nat}
    (interval : Interval edges first last) (later : last ≤ idle)
    (low : (before edges idle).inbusy = false)
    (busy : ∀ n, last ≤ n → n < idle → (before edges n).inbusy = true) :
    emitted edges idle = emitted edges first + 1 ↔
      ∀ n, first + 1 ≤ n → n < last → ¬Accepts edges n := by
  have ignored : accepted edges idle = accepted edges last :=
    (count_eq_count_iff later).mpr fun n after early accepts =>
      Bool.false_ne_true (accepts.2.2.symm.trans (busy n after early))
  have started : accepted edges first + 1 = accepted edges (first + 1) :=
    (Nat.count_succ_eq_succ_count interval.accepts).symm
  rw [emitted_of_idle low, emitted_of_idle interval.idle, ignored, started]
  exact count_eq_count_iff interval.inside

/-- An interval gives one pulse exactly when it is over before a handshake is. -/
theorem one_pulse_iff {edges : Nat → Edge} {first last : Nat} (running : Running edges)
    (interval : Interval edges first last) :
    OnePulse edges first last ↔ Brief edges first last := by
  rw [interval.brief_iff]
  constructor
  · rintro ⟨idle, later, low, busy, one, -⟩
    exact (interval.emitted_iff later low busy).mp one
  · intro once
    have comes := idle_comes running last
    obtain ⟨later, low⟩ := Nat.find_spec comes
    have busy : ∀ n, last ≤ n → n < Nat.find comes → (before edges n).inbusy = true := by
      intro n after early
      have still := Nat.find_min comes early
      rw [not_and, Bool.not_eq_false] at still
      exact still after
    exact ⟨Nat.find comes, later, low, busy, (interval.emitted_iff later low busy).mpr once,
      fun n _ _ rises => rises.oneWide⟩

/-- Both clocks rise together, and `pulsein` is high for some edges from the first on. -/
def held (length : Nat) : Nat → Edge := fun n => ⟨true, true, decide (n < length)⟩

theorem running_held (length : Nat) : Running (held length) :=
  fun n => ⟨⟨n, le_rfl, rfl⟩, ⟨n, le_rfl, rfl⟩⟩

theorem interval_held {length : Nat} (positive : 0 < length) : Interval (held length) 0 length where
  begins := rfl
  ends := rfl
  inside := positive
  low_before n early := absurd early (Nat.not_lt_zero n)
  high _ _ early _ := decide_eq_true early
  low := decide_eq_false (Nat.lt_irrefl length)
  idle := rfl

/-- The three periods of `in_clk` that the test bench drives. -/
theorem one_pulse_of_three : OnePulse (held 3) 0 3 :=
  (one_pulse_iff (running_held 3) (interval_held (by decide))).mpr (by
    have brief : ∀ n < 3, met (held 3) 0 n < 14 := by decide
    exact fun n _ early _ => brief n early)

/-- Held for sixteen periods, `pulsein` gives two pulses. -/
theorem two_pulses_of_sixteen :
    Running (held 16) ∧ Interval (held 16) 0 16 ∧ ¬OnePulse (held 16) 0 16 := by
  refine ⟨running_held 16, interval_held (by decide), ?_⟩
  rintro ⟨idle, later, low, -, one, -⟩
  have two : accepted (held 16) 16 = 2 := by decide +kernel
  have more : accepted (held 16) 16 ≤ accepted (held 16) idle := Nat.count_monotone _ later
  have noPulse : emitted (held 16) 0 = 0 := rfl
  rw [emitted_of_idle low] at one
  omega

end Pulse2pulse

end K71GbE
