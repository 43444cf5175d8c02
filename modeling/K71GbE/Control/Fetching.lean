/-
This file follows the command words through `control_interface`: the edge that
pops a word from the command FIFO, and the edge that executes it.

A word is popped one clock after the fetch, which is the clock that interprets
it, whatever the interpretation does. Every command leaves `INTERPRET_CMD` at
that clock but a READ of address 20, which stays as long as the output FIFO is
full and finds the next word on the output of the command FIFO.
-/

import K71GbE.Control.Steps
import K71GbE.Control.System

namespace K71GbE.Control.System

open Clocked

variable {traffic : Traffic} {system : System} {tick : Tick}

/-- Every edge is one transition of the command process. -/
theorem clock_step (traffic : Traffic) (system : System) (tick : Tick) :
    ∃ next, system.control.Step (system.ports traffic tick) next ∧
      (system.clock traffic tick).control =
        { next with sDinHigh := dataOf (system.cmdFifoQ traffic tick) } :=
  ⟨_, ControlInterface.cmdIF_step _ _, system.clock_control traffic tick⟩

/-- A READ of address 20 that does not stall finds room. -/
theorem room_of_not_stalls (noStall : system.stalls traffic tick = false)
    (state : system.control.cmdState = .interpretCmd)
    (asked : readsMemory (system.cmdFifoQ traffic tick) = true) : tick.sFifoFull = false := by
  simpa [stalls, state, asked] using noStall

/-- A word is requested exactly while it is to be interpreted, and it is there. -/
structure Fetching (system : System) : Prop where
  fetching : system.control.cmdFifoRdreq = decide (system.control.cmdState = .interpretCmd)
  visible : system.control.cmdState = .interpretCmd → system.cmdFifo.empty = false

namespace Fetching

theorem powerOn (memory : BitVec 32 → BitVec 32) : (powerOn memory).Fetching :=
  ⟨rfl, fun state => by cases state⟩

theorem clock (fetching : system.Fetching) (noStall : system.stalls traffic tick = false) :
    (system.clock traffic tick).Fetching := by
  obtain ⟨next, step, control⟩ := system.clock_step traffic tick
  refine ⟨?_, fun state => ?_⟩
  · rw [control]
    exact step.fetching (room_of_not_stalls noStall)
  · rw [control] at state
    rcases step.interpreting state with ⟨waiting, visible⟩ | ⟨before, asked, full⟩
    · refine Fwft.empty_clock_of_not_popped visible ?_
      rw [fetching.fetching, waiting]
      rfl
    · exact absurd (room_of_not_stalls noStall before asked) (ne_false_of_eq_true full)

/-- The word to be interpreted is the one on the output of the FIFO. -/
theorem cmdFifoQ_eq (fetching : system.Fetching)
    (state : system.control.cmdState = .interpretCmd) :
    system.cmdFifoQ traffic tick = 0#4 ++ traffic.commands system.cmdFifo.popped :=
  Fwft.dout_visible _ _ (fetching.visible state)

theorem readsMemory_eq (fetching : system.Fetching) (traffic : Traffic) (tick : Tick)
    (state : system.control.cmdState = .interpretCmd) :
    readsMemory (system.cmdFifoQ traffic tick) =
      readsMemory (traffic.commands system.cmdFifo.popped) := by
  rw [fetching.cmdFifoQ_eq state, readsMemory_append]

/-- The transition that interprets it, by the fields of the command word. -/
theorem interpretation (fetching : system.Fetching) (traffic : Traffic) (tick : Tick)
    (state : system.control.cmdState = .interpretCmd) :
    ∃ next, system.control.Interpretation (system.ports traffic tick)
        (readNotWrite (traffic.commands system.cmdFifo.popped))
        (target (addressI (traffic.commands system.cmdFifo.popped)))
        (dataOf (traffic.commands system.cmdFifo.popped)) next ∧
      (system.clock traffic tick).control =
        { next with sDinHigh := dataOf (traffic.commands system.cmdFifo.popped) } := by
  obtain ⟨next, step, control⟩ := system.clock_step traffic tick
  have word : (system.ports traffic tick).cmdFifoQ =
      0#4 ++ traffic.commands system.cmdFifo.popped := fetching.cmdFifoQ_eq state
  have latched : system.cmdFifoQ traffic tick = 0#4 ++ traffic.commands system.cmdFifo.popped :=
    fetching.cmdFifoQ_eq state
  rw [latched, dataOf_append] at control
  cases step with
  | interpret _ moved =>
    rw [word, readNotWrite_append, addressI_append, dataOf_append] at moved
    exact ⟨next, moved, control⟩
  | init other | wait other | fetch other | memAdv other | memDone other | memNext other
  | memHold other | pulseDone other | pulseHold other | transferDone other | transferNext other
  | transferHold other | others other => simp [state] at other

theorem pops_eq (fetching : system.Fetching) :
    system.cmdFifo.pops system.control.cmdFifoRdreq =
      decide (system.control.cmdState = .interpretCmd) := by
  rw [fetching.fetching, Fwft.pops]
  by_cases state : system.control.cmdState = .interpretCmd
  · rw [fetching.visible state, decide_eq_true state]
    rfl
  · rw [decide_eq_false state, Bool.false_and]

/-- A command is taken at the edge that interprets it. -/
theorem received_of_interpret (fetching : system.Fetching)
    (state : system.control.cmdState = .interpretCmd) :
    system.received traffic tick =
      [⟨traffic.commands system.cmdFifo.popped, tick.statusReg⟩] := by
  rw [received, popped, fetching.pops_eq, decide_eq_true state, if_pos rfl, List.map_singleton]

theorem received_of_other (fetching : system.Fetching)
    (state : system.control.cmdState ≠ .interpretCmd) : system.received traffic tick = [] := by
  rw [received, popped, fetching.pops_eq, decide_eq_false state, if_neg Bool.false_ne_true,
    List.map_nil]

theorem clock_popped (fetching : system.Fetching) (traffic : Traffic) (tick : Tick) :
    (system.clock traffic tick).cmdFifo.popped =
      if system.control.cmdState = .interpretCmd then system.cmdFifo.popped + 1
      else system.cmdFifo.popped := by
  have pops := fetching.pops_eq
  by_cases state : system.control.cmdState = .interpretCmd
  · rw [if_pos state]
    exact Fwft.clock_popped_of_pops (pops.trans (decide_eq_true state))
  · rw [if_neg state]
    exact Fwft.clock_popped_of_not_pops (pops.trans (decide_eq_false state))

end Fetching

/-- The commands popped are the first words of the command FIFO. -/
theorem received_words
    {memory : BitVec 32 → BitVec 32} {ticks : List Tick}
    (along : Along (clock traffic) (fun system tick => system.stalls traffic tick = false)
      (powerOn memory) ticks) :
    (run (clock traffic) (powerOn memory) ticks).Fetching ∧
      (log (clock traffic) (received traffic) (powerOn memory) ticks).map Given.word =
        (List.range (run (clock traffic) (powerOn memory) ticks).cmdFifo.popped).map
          traffic.commands := by
  have preserved (system : System) (tick : Tick) (events : List Given)
      (holds : system.Fetching ∧
        events.map Given.word = (List.range system.cmdFifo.popped).map traffic.commands)
      (noStall : system.stalls traffic tick = false) :
      (system.clock traffic tick).Fetching ∧
        (events ++ system.received traffic tick).map Given.word =
          (List.range (system.clock traffic tick).cmdFifo.popped).map traffic.commands := by
    obtain ⟨fetching, words⟩ := holds
    refine ⟨fetching.clock noStall, ?_⟩
    rw [fetching.clock_popped, List.map_append, words]
    by_cases state : system.control.cmdState = .interpretCmd
    · rw [if_pos state, fetching.received_of_interpret state, List.range_succ, List.map_append]
      rfl
    · rw [if_neg state, fetching.received_of_other state, List.map_nil, List.append_nil]
  exact log_invariant
    (fun system events => system.Fetching ∧
      events.map Given.word = (List.range system.cmdFifo.popped).map traffic.commands)
    preserved ⟨Fetching.powerOn memory, (rfl : ([] : List Given).map Given.word = [])⟩ along

/-! ### Each word popped is executed once -/

/-- The word whose register write, pulse, memory access or response is performed at this edge: its
position in the command FIFO, or none while the FIFO is empty. -/
def executed (traffic : Traffic) (system : System) (tick : Tick) : List (Option Nat) :=
  if system.control.cmdState = .interpretCmd ∧ system.stalls traffic tick = false then
    [if system.cmdFifo.empty then none else some system.cmdFifo.popped]
  else []

/-- The words executed are the words popped, each once and in their order. -/
def ExecutedOnce (traffic : Traffic) (memory : BitVec 32 → BitVec 32) (ticks : List Tick) : Prop :=
  log (clock traffic) (executed traffic) (powerOn memory) ticks =
    (List.range (run (clock traffic) (powerOn memory) ticks).cmdFifo.popped).map some

instance (traffic : Traffic) (memory : BitVec 32 → BitVec 32) (ticks : List Tick) :
    Decidable (ExecutedOnce traffic memory ticks) :=
  inferInstanceAs (Decidable (_ = _))

/-- A word that does not stall is executed at the edge that pops it. -/
theorem Fetching.executed_eq (fetching : system.Fetching)
    (noStall : system.stalls traffic tick = false) :
    (List.range system.cmdFifo.popped).map some ++ executed traffic system tick =
      (List.range (system.clock traffic tick).cmdFifo.popped).map some := by
  rw [fetching.clock_popped, executed]
  by_cases state : system.control.cmdState = .interpretCmd
  · rw [if_pos ⟨state, noStall⟩, if_pos state, fetching.visible state, if_neg Bool.false_ne_true,
      List.range_succ, List.map_append, List.map_singleton]
  · rw [if_neg fun both => state both.1, if_neg state, List.append_nil]

/-- Without a stall every moment finds the words popped executed. -/
theorem executedOnce_of_along (memory : BitVec 32 → BitVec 32) {ticks : List Tick}
    (along : Along (clock traffic) (fun system tick => system.stalls traffic tick = false)
      (powerOn memory) ticks) :
    (run (clock traffic) (powerOn memory) ticks).Fetching ∧ ExecutedOnce traffic memory ticks := by
  have preserved (system : System) (tick : Tick) (events : List (Option Nat))
      (holds : system.Fetching ∧ events = (List.range system.cmdFifo.popped).map some)
      (noStall : system.stalls traffic tick = false) :
      (system.clock traffic tick).Fetching ∧ events ++ executed traffic system tick =
        (List.range (system.clock traffic tick).cmdFifo.popped).map some :=
    ⟨holds.1.clock noStall, by rw [holds.2, holds.1.executed_eq noStall]⟩
  exact log_invariant
    (fun system events =>
      system.Fetching ∧ events = (List.range system.cmdFifo.popped).map some)
    preserved ⟨Fetching.powerOn memory, rfl⟩ along

/-- A stall pops a word that is not executed. -/
theorem not_executedOnce_of_stall {memory : BitVec 32 → BitVec 32} {ticks : List Tick}
    (fetching : (run (clock traffic) (powerOn memory) ticks).Fetching)
    (executedOnce : ExecutedOnce traffic memory ticks)
    (stall : (run (clock traffic) (powerOn memory) ticks).stalls traffic tick = true) :
    ¬ExecutedOnce traffic memory (ticks ++ [tick]) := by
  intro after
  have state : (run (clock traffic) (powerOn memory) ticks).control.cmdState = .interpretCmd := by
    simp only [stalls, Bool.and_eq_true, beq_iff_eq] at stall
    exact stall.1
  have lengths := congrArg List.length after
  unfold ExecutedOnce at executedOnce
  rw [log_concat, executedOnce, run_concat, fetching.clock_popped, if_pos state, executed,
    if_neg fun both => ne_true_of_eq_false both.2 stall] at lengths
  simp at lengths

/-- At every moment the words executed are exactly the words popped from the command FIFO, each once
and in FIFO order, if and only if no READ of address 20 is ever interpreted while the output FIFO
is full. -/
theorem executed_once_iff (traffic : Traffic) (memory : BitVec 32 → BitVec 32)
    (ticks : List Tick) :
    (∀ seen, seen <+: ticks → ExecutedOnce traffic memory seen) ↔
      Along (clock traffic) (fun system tick => system.stalls traffic tick = false)
        (powerOn memory) ticks := by
  constructor
  · intro always
    induction ticks using List.reverseRecOn with
    | nil => trivial
    | append_singleton ticks tick inductionHypothesis =>
      have earlier := inductionHypothesis fun seen within =>
        always seen (within.trans (List.prefix_append ticks [tick]))
      obtain ⟨fetching, executedOnce⟩ := executedOnce_of_along memory earlier
      refine (along_concat _ _ _ ticks tick).mpr ⟨earlier, Bool.eq_false_iff.mpr fun stall => ?_⟩
      exact not_executedOnce_of_stall fetching executedOnce stall (always _ (List.prefix_refl _))
  · intro along seen ⟨later, whole⟩
    subst whole
    exact (executedOnce_of_along memory ((along_append _ _ _ seen later).mp along).1).2

/-- A READ of address 20, and READs of address 32 behind it. -/
def readMemoryFirst : Traffic where
  commands k := if k = 0 then 0x80140000 else 0x80200000
  data _ := 0

/-- Two words arrive, and the output FIFO is full while the first is interpreted. -/
def fullAtFirst : List Tick :=
  [{ Tick.quiet with cmdArriving := 2 }, .quiet, { Tick.quiet with sFifoFull := true }, .quiet,
    .quiet, .quiet]

/-- The first word is popped and lost, the second is executed twice. -/
theorem executed_twice_when_full :
    log (clock readMemoryFirst) (executed readMemoryFirst) (powerOn 0) fullAtFirst =
        [some 1, some 1] ∧
      ¬ExecutedOnce readMemoryFirst 0 fullAtFirst := by
  decide

end K71GbE.Control.System
