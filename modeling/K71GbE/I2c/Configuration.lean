/-
This file puts `i2c_write_regmap` on the bus: its machine, the `i2c_master` it
starts and the core of that, all of one clock and one reset.

The table of the machine promises nothing about the master, and the master wants
its first `START` late and its operands steady. Each gives the other what it
needs: the delays hold the machine back until the core has left its reset, the
machine touches the operands only when the master is idle, and so every
transaction ends and the next entry follows. A receiver on the bus reads the
table.
-/

import K71GbE.I2c.WriteRegmap
import K71GbE.I2c.Operation

namespace K71GbE.I2c

open Clocked Clocked.TwoWire

/-- The port map of the attached master: it writes one byte of data at most. -/
def RegmapOperands.toMaster (operands : RegmapOperands) : Operands :=
  ⟨operands.i2cMode, false, operands.i2cSlAddr, operands.i2cRegAddr, operands.i2cRegVal, 0⟩

/-- The whole entity before each edge of `CLK` since the end of a reset. -/
structure ConfigRun (generics : RegmapGenerics) (regmap : Nat → Addrval) (divider : Nat) where
  regs : Nat → Regmap
  master : Nat → Master
  core : Nat → Core
  start : Nat → Bool
  slave : Nat → Bool
  reset : ∃ before : Regmap, regs 0 = before.reset
  masterReset : ∃ before : Master, master 0 = before.resetClock true
  coreReset : ∃ before : Core, core 0 = before.reset
  clocked : ∀ n, regs (n + 1) = (regs n).clock generics regmap (start n) (master n).busy
  masterClocked : ∀ n, master (n + 1) =
    (master n).clock (regs n).i2cStart (regs n).operands.toMaster (core n).busy (core n).dataRd
  coreClocked : ∀ n, core (n + 1) = (core n).clock divider
    ⟨(master (n + 1)).enable, (regs (n + 1)).operands.toMaster.slAddr,
      (regs (n + 1)).operands.toMaster.slRw, (master (n + 1)).dataWr⟩ ((core n).sda (slave n))
  steady : ∀ n, (core (n + 1)).scl = true → (core (n + 1)).sdaT = true → slave (n + 1) = slave n

/-- The clocks of the three delays. -/
def RegmapGenerics.delay (generics : RegmapGenerics) : Nat :=
  generics.startDelayCycle + generics.extRstWidthCycle + generics.extRstDelayCycle

namespace Addrval

variable (addrval : Addrval) (generics : RegmapGenerics)

/-- The address byte of an entry. -/
def address : BitVec 8 := generics.toUnsigned addrval.slAddr 7 ++ BitVec.ofBool false

/-- The bytes behind it: an entry without a value only selects a register. -/
def bytes : List (BitVec 8) :=
  generics.toUnsigned addrval.regAddr 8 ::
    if addrval.regVal < 0 then [] else [generics.toUnsigned addrval.regVal 8]

theorem bytes_eq :
    (List.range (addrval.operands generics).toMaster.bytes).map
      (addrval.operands generics).toMaster.payload = addrval.bytes generics := by
  simp only [operands, RegmapOperands.toMaster, Operands.bytes, bytes]
  split <;> rfl

end Addrval

/-- A receiver reads one stretch of the bus after the other. -/
theorem Bus.reads_trans {divider n m e : Nat} {bus : Bus divider} {before middle after : Receiver}
    {first second : List Event} (le : n ≤ m) (le' : m ≤ e)
    (reads : Reads before (bus.samples n (m - n)) first middle)
    (next : Reads middle (bus.samples m (e - m)) second after) :
    Reads before (bus.samples n (e - n)) (first ++ second) after := by
  rw [show e - n = m - n + (e - m) by omega, samples_add, Nat.add_sub_cancel' le]
  exact reads.append next

/-! ### The divider after a reset -/

namespace Core

variable {divider : Nat} {core : Core}

theorem advance_divider (command : Command) :
    (core.advance command).count = core.count ∧
      (core.advance command).dataClk = core.dataClk := by
  unfold advance
  constructor <;> cases core.state <;> simp only <;> repeat' split
  all_goals rfl

theorem sample_divider (sdaIn : Bool) :
    (core.sample sdaIn).count = core.count ∧ (core.sample sdaIn).dataClk = core.dataClk := by
  unfold sample
  cases core.state <;> exact ⟨rfl, rfl⟩

/-- The divider runs on, whatever the state machine does. -/
theorem clock_divider (command : Command) (sdaIn : Bool) :
    (core.clock divider command sdaIn).count = (core.divide divider).count ∧
      (core.clock divider command sdaIn).dataClk = (core.divide divider).dataClk := by
  unfold clock
  constructor <;> simp only <;> repeat' split
  all_goals
    simp only [(advance_divider _).1, (advance_divider _).2, (sample_divider _).1,
      (sample_divider _).2]

end Core

namespace MasterRun

variable {divider : Nat} (run : MasterRun divider)

/-- A machine that serves a command says so. -/
theorem busy_of_serving {n : Nat} (serving : ¬run.Idle n) : (run.master n).busy = true := by
  cases n with
  | zero =>
    obtain ⟨before, reset⟩ := run.reset
    rw [Idle, reset] at serving
    exact absurd rfl serving
  | succ n =>
    by_cases idle : run.Idle n
    · by_cases accepts : run.Accepts n
      · exact (run.accepts_next accepts).2.2.2.2
      · exact absurd (run.idle_next idle accepts) serving
    · rw [run.clocked]
      exact Master.clock_busy idle _

theorem idle_of_busy {n : Nat} (low : (run.master n).busy = false) : run.Idle n :=
  by_contra fun serving => by
    rw [run.busy_of_serving serving] at low
    cases low

/-- The busy line of an idle machine follows `START`. -/
theorem busy_next {n : Nat} (idle : run.Idle n) :
    (run.master (n + 1)).busy = run.start n := by
  rw [run.clocked, Master.clock_waits idle]

theorem count_from {n : Nat} (zero : (run.core n).count = 0) {j : Nat} (inside : j < divider * 4) :
    (run.core (n + j)).count = j := by
  induction j with
  | zero => exact zero
  | succ j inductionHypothesis =>
    have here := inductionHypothesis (by omega)
    rw [← Nat.add_assoc, run.coreClocked, (Core.clock_divider _ _).1]
    simp only [Core.divide]
    rw [if_neg (by omega), here]

theorem count_wraps {n : Nat} (positive : 0 < divider) (zero : (run.core n).count = 0) :
    (run.core (n + divider * 4)).count = 0 := by
  have last := run.count_from zero (j := divider * 4 - 1) (by omega)
  rw [show n + divider * 4 = n + (divider * 4 - 1) + 1 by omega, run.coreClocked,
    (Core.clock_divider _ _).1]
  simp only [Core.divide]
  rw [if_pos last]

theorem count_reset : (run.core 0).count = 0 := by
  obtain ⟨before, reset⟩ := run.coreReset
  rw [reset]
  rfl

theorem dataClk_next (n : Nat) : (run.core (n + 1)).dataClk =
    (!decide ((run.core (n + 1)).count < divider) &&
      decide ((run.core (n + 1)).count < divider * 3)) := by
  rw [run.coreClocked, (Core.clock_divider _ _).1, (Core.clock_divider _ _).2]
  rfl

/-- In the second period of the divider `data_clk` has risen, even if it was high at the reset. -/
theorem dataRise_second (positive : 0 < divider) : run.DataRise (divider * 5 - 1) := by
  have second := run.count_wraps positive run.count_reset
  have before := run.count_from second (j := divider - 1) (by omega)
  have after := run.count_from second (j := divider) (by omega)
  rw [show 0 + divider * 4 + (divider - 1) = divider * 5 - 2 + 1 by omega] at before
  rw [show 0 + divider * 4 + divider = divider * 5 - 1 + 1 by omega] at after
  constructor
  · rw [show divider * 5 - 1 = divider * 5 - 2 + 1 by omega, run.dataClk_next, before,
      decide_eq_true (by omega)]
    rfl
  · rw [run.dataClk_next, after, decide_eq_false (by omega), decide_eq_true (by omega)]
    rfl

end MasterRun

namespace ConfigRun

variable {generics : RegmapGenerics} {regmap : Nat → Addrval} {divider : Nat}
  (run : ConfigRun generics regmap divider)

/-- The master with its core. -/
def masterRun : MasterRun divider where
  master := run.master
  core := run.core
  start n := (run.regs n).i2cStart
  operands n := (run.regs n).operands.toMaster
  slave := run.slave
  reset := run.masterReset
  coreReset := run.coreReset
  clocked := run.masterClocked
  coreClocked := run.coreClocked
  steady := run.steady

/-- The core and the bus. -/
def bus : Bus divider := run.masterRun.bus

/-- Edge `n` is the first one after a reset or after a `START` that the idle machine has seen. -/
def Begins (n : Nat) : Prop :=
  n = 0 ∨ ∃ a, n = a + 1 ∧ (run.regs a).state = .s0 ∧ run.start a = true

/-- Where a receiver may begin: the reset can break off a transaction, and the lines come to rest
six quarters of a period later. -/
def settled (divider b : Nat) : Nat := max b (divider * 6)

/-- From edge `b` to edge `e` a receiver reads the first `count` entries of the table off the bus,
once each and in order, and `BUSY` is high; then `BUSY` falls and nothing more is sent until a
`START`. -/
structure Configures (b e count : Nat) : Prop where
  later : settled divider b < e
  busy : ∀ n, b ≤ n → n ≤ e → (run.regs n).busy = true
  carried : ∃ transcripts : Nat → Transcript,
    (∀ k < count, (transcripts k).slots.map Prod.fst = (regmap k).bytes generics) ∧
      Reads (.fresh (run.bus.wire (settled divider b)))
        (run.bus.samples (settled divider b) (e - settled divider b))
        ((List.range count).flatMap fun k =>
          (transcripts k).events ((regmap k).address generics) false)
        (.high true none)
  silent : ∀ n, e ≤ n → (∀ i, e ≤ i → i < n → run.start i = false) →
    (run.regs (n + 1)).busy = run.start n ∧
      Reads (.high true none) (run.bus.samples e (n - e)) [] (.high true none)

/-! ### The two machines -/

theorem start_iff (n : Nat) : (run.regs n).i2cStart = decide ((run.regs n).state = .s5) := by
  cases n with
  | zero =>
    obtain ⟨before, reset⟩ := run.reset
    rw [reset]
    rfl
  | succ n =>
    rw [run.clocked]
    exact Regmap.clock_i2cStart

theorem noStart_of_state {n : Nat} (other : (run.regs n).state ≠ .s5) :
    (run.regs n).i2cStart = false := by
  rw [start_iff, decide_eq_false other]

theorem busy_next {n : Nat} (low : (run.master n).busy = false) :
    (run.master (n + 1)).busy = (run.regs n).i2cStart :=
  run.masterRun.busy_next (run.masterRun.idle_of_busy low)

/-- Only while the machine is about to give an entry can the master be busy. -/
theorem busy_low {n : Nat} (other : (run.regs n).state ≠ .s4) :
    (run.master n).busy = false := by
  induction n with
  | zero =>
    obtain ⟨before, reset⟩ := run.masterReset
    rw [reset]
    rfl
  | succ n inductionHypothesis =>
    have next := run.clocked n
    by_cases giving : (run.regs n).state = .s4
    · have low : (run.master n).busy = false := by
        refine Bool.eq_false_of_not_eq_true fun busy => other ?_
        rw [next]
        simp only [Regmap.clock, giving, busy, Bool.true_eq_false, if_false]
      rw [run.busy_next low, run.noStart_of_state (by rw [giving]; decide)]
    · have low := inductionHypothesis giving
      rw [run.busy_next low, run.noStart_of_state fun pulse => other ?_]
      rw [next]
      simp only [Regmap.clock, pulse]

theorem idle_of_state {n : Nat} (other : (run.regs n).state ≠ .s4) : run.masterRun.Idle n :=
  run.masterRun.idle_of_busy (run.busy_low other)

theorem state_of_accepts {a : Nat} (accepts : run.masterRun.Accepts a) :
    (run.regs a).state = .s5 := by
  have start : (run.regs a).i2cStart = true := accepts.start
  rwa [start_iff, decide_eq_true_eq] at start

/-- The operands of a transaction are steady. -/
theorem held {a : Nat} (accepts : run.masterRun.Accepts a) : run.masterRun.Held a := by
  intro m later serving
  induction m, later using Nat.le_induction with
  | base => rfl
  | succ m later inductionHypothesis =>
    have same := inductionHypothesis fun i after before => serving i after (by omega)
    rw [← same]
    refine congrArg RegmapOperands.toMaster ?_
    rw [run.clocked]
    refine Regmap.clock_operands fun giving => ?_
    rcases Nat.eq_or_lt_of_le later with rfl | after
    · rw [run.state_of_accepts accepts] at giving
      cases giving
    · exact run.masterRun.busy_of_serving (serving m after (Nat.le_succ m))

/-- The delays after a reset. -/
theorem delayed {n : Nat} (early : n + 1 < generics.delay) :
    0 < RegmapRun.delays (run.regs n).state ∧ (run.regs n).cnt = n + 2 := by
  induction n with
  | zero =>
    obtain ⟨before, reset⟩ := run.reset
    rw [reset]
    exact ⟨Nat.succ_pos 2, rfl⟩
  | succ n inductionHypothesis =>
    obtain ⟨waiting, count⟩ := inductionHypothesis (by omega)
    have next := run.clocked n
    rw [next]
    cases state : (run.regs n).state with
    | s1 | s2 =>
      simp only [Regmap.clock, state]
      refine ⟨?_, by omega⟩
      split <;> exact Nat.succ_pos _
    | s3 =>
      have more : ¬(run.regs n).cnt + 1 > generics.startDelayCycle +
          generics.extRstWidthCycle + generics.extRstDelayCycle := by
        rw [RegmapGenerics.delay] at early
        omega
      simp only [Regmap.clock, state, more, if_false]
      exact ⟨Nat.succ_pos 0, by omega⟩
    | _ =>
      rw [state] at waiting
      cases waiting

section Delays

variable (positive : 0 < divider) (delays : divider * 8 ≤ generics.delay)

include delays in
/-- The first entry comes late. -/
theorem later_of_state {n : Nat} (state : RegmapRun.delays (run.regs n).state = 0) :
    divider * 8 ≤ n + 1 := by
  refine Nat.le_of_not_lt fun early => ?_
  have waiting := (run.delayed (n := n) (by omega)).1
  omega

include positive delays

theorem warm (a : Nat) (accepts : run.masterRun.Accepts a) :
    ∃ r ≤ a, run.masterRun.DataRise r := by
  have late := run.later_of_state delays (n := a) (by rw [run.state_of_accepts accepts]; rfl)
  exact ⟨divider * 5 - 1, by omega, run.masterRun.dataRise_second positive⟩

/-- Every transaction ends, and the core waits. -/
theorem exists_performs {a : Nat} (accepts : run.masterRun.Accepts a) :
    ∃ e transcript, run.masterRun.Performs a e transcript ∧ (run.core e).Waits divider := by
  obtain ⟨rests, flat⟩ := run.masterRun.rests_accepted positive (run.warm positive delays) accepts
    fun earlier => run.masterRun.rests_of_idle positive (run.warm positive delays)
      (fun _ => run.held) earlier accepts.idle
  exact run.masterRun.exists_performs_waits accepts (run.held accepts) rests flat positive

/-- Six quarters of a period after the reset an idle master means a waiting core. -/
theorem waits_of_idle {n : Nat} (later : divider * 6 ≤ n) (idle : run.masterRun.Idle n) :
    (run.core n).Waits divider := by
  obtain ⟨gap, rfl⟩ := Nat.exists_eq_add_of_le later
  induction gap using Nat.strong_induction_on with
  | h gap inductionHypothesis =>
    cases gap with
    | zero =>
      have rests : (run.core (divider * 6)).Rests divider :=
        run.masterRun.rests_of_idle positive (run.warm positive delays) (fun _ => run.held)
          ⟨divider * 5 - 1, by omega, run.masterRun.dataRise_second positive⟩ idle
      refine rests.waits_of_off (Bool.eq_false_of_not_eq_true fun late => ?_)
      have second := run.masterRun.count_wraps positive run.masterRun.count_reset
      have count := run.masterRun.count_from second (j := divider * 2) (by omega)
      rw [show 0 + divider * 4 + divider * 2 = divider * 6 by omega] at count
      have same : (run.core (divider * 6)).count = divider * 2 := count
      have bound := rests.late late
      omega
    | succ gap =>
      by_cases waiting : run.masterRun.Idle (divider * 6 + gap)
      · exact run.masterRun.waits_next (inductionHypothesis gap (Nat.lt_succ_self gap)
          (Nat.le_add_right _ _) waiting) (run.masterRun.idle_command waiting)
      · obtain ⟨a, before, accepts, serving⟩ := run.masterRun.exists_accepts waiting
        obtain ⟨e, _, performs, ends⟩ := run.exists_performs positive delays accepts
        have after : ¬e ≤ divider * 6 + gap := fun le => serving e performs.later le performs.idle
        have notBefore : ¬divider * 6 + (gap + 1) < e := fun lt =>
          performs.serving (divider * 6 + (gap + 1)) (by omega) lt idle
        obtain rfl : e = divider * 6 + (gap + 1) := by omega
        exact ends

/-- With an idle master the bus is silent. -/
theorem reads_silent {n m : Nat} (settled : divider * 6 ≤ n)
    (idle : ∀ i, n ≤ i → i < m → run.masterRun.Idle i) :
    Reads (.high true none) (run.bus.samples n (m - n)) [] (.high true none) := by
  have same : run.bus.samples n (m - n) = List.replicate (m - n) ⟨true, true, false⟩ :=
    run.bus.samples_same fun j inside =>
      run.bus.wire_waits (run.waits_of_idle positive delays (by omega)
        (idle (n + j) (by omega) (by omega)))
  rw [same]
  exact reads_same _ _ _ _

/-- The master as the machine sees it: it becomes idle again and again. -/
theorem falls (n : Nat) : ∃ m, n ≤ m ∧ (run.master m).busy = false := by
  cases busy : (run.master n).busy with
  | false => exact ⟨n, le_rfl, busy⟩
  | true =>
    have giving : (run.regs n).state = .s4 := by_contra fun other => by
      rw [run.busy_low other] at busy
      cases busy
    by_cases idle : run.masterRun.Idle n
    · refine ⟨n + 1, Nat.le_succ n, ?_⟩
      exact (run.masterRun.busy_next idle).trans
        (run.noStart_of_state (by rw [giving]; decide))
    · obtain ⟨a, before, accepts, serving⟩ := run.masterRun.exists_accepts idle
      obtain ⟨e, _, performs, _⟩ := run.exists_performs positive delays accepts
      have after : ¬e ≤ n := fun le => serving e performs.later le performs.idle
      refine ⟨e + 1, by omega, performs.falls ?_⟩
      refine run.noStart_of_state fun pulse => ?_
      have busyEnd : (run.master e).busy = true := performs.busy e performs.later le_rfl
      rw [run.busy_low (by rw [pulse]; decide)] at busyEnd
      cases busyEnd

/-- The machine with the busy line of this master. -/
def regmapRun : RegmapRun generics regmap where
  regs := run.regs
  start := run.start
  i2cBusy n := (run.master n).busy
  reset := run.reset
  clocked := run.clocked
  idle := run.busy_low (by
    obtain ⟨before, reset⟩ := run.reset
    rw [reset]
    exact (by decide : RegmapState.s1 ≠ .s4))
  rises _ := run.busy_next
  falls := run.falls positive delays

/-! ### One entry after the other -/

/-- The machine is about to give entry `k` to a master that is done with the others. -/
structure Ready (k n : Nat) : Prop where
  at_ : (run.regmapRun positive delays).AtEntry k n
  low : (run.master n).busy = false
  settled : divider * 6 ≤ n

variable {positive delays} {run}

/-- An entry goes to the master, and the machine waits for its end. -/
theorem Ready.exists_sent {k n : Nat} (ready : run.Ready positive delays k n) (bound : k < 1024)
    (entry : 0 ≤ (regmap k).slAddr) :
    ∃ (e : Nat) (transcript : Transcript), n ≤ e ∧ run.Ready positive delays (k + 1) e ∧
      (∀ i, n ≤ i → i < e → (run.regs i).state ≠ .s0) ∧
      transcript.slots.map Prod.fst = (regmap k).bytes generics ∧
      Reads (.high true none) (run.bus.samples n (e - n))
        (transcript.events ((regmap k).address generics) false) (.high true none) := by
  have state : (run.regs n).state = .s4 := ready.at_.state
  have value : (run.regs n).addrval = regmap k := ready.at_.addrval_eq
  have index : (run.regs n).i = k := ready.at_.i_eq
  have issues : ¬(run.regs n).addrval.slAddr < 0 := by
    rw [value]
    exact Int.not_lt.mpr entry
  have pulse := run.clocked n
  simp only [Regmap.clock, state, ready.low, if_true, issues, if_false] at pulse
  have issuing : (run.regs (n + 1)).state = .s5 := congrArg Regmap.state pulse
  have operands : (run.regs (n + 1)).operands = (regmap k).operands generics := by
    rw [pulse, value]
  have behind := run.clocked (n + 1)
  rw [pulse] at behind
  simp only [Regmap.clock] at behind
  have next : (run.regmapRun positive delays).AtEntry (k + 1) (n + 1 + 1) :=
    ⟨congrArg Regmap.state behind, (congrArg Regmap.i behind).trans (by rw [index]),
      (congrArg Regmap.addrval behind).trans (by rw [index])⟩
  have idle := run.idle_of_state (n := n + 1) (by rw [issuing]; decide)
  have legal : (run.masterRun.operands (n + 1)).serving ≠ .stWaitStart := by
    show (run.regs (n + 1)).operands.toMaster.serving ≠ .stWaitStart
    rw [operands]
    simp only [Addrval.operands, RegmapOperands.toMaster, Operands.serving, if_true]
    split <;> decide
  have accepts : run.masterRun.Accepts (n + 1) :=
    ⟨idle, congrArg Regmap.i2cStart pulse, legal⟩
  obtain ⟨e, transcript, performs, waits⟩ := run.exists_performs positive delays accepts
  have later := performs.later
  obtain ⟨stretch, given⟩ := (run.regmapRun positive delays).entry_waits (m := e + 1) (by omega)
    next (by omega) fun i after before => performs.busy i after (Nat.le_of_lt_succ before)
  have settled := ready.settled
  refine ⟨e + 1, transcript, by omega, ⟨given, ?_, by omega⟩, fun i after before => ?_, ?_, ?_⟩
  · refine performs.falls (run.noStart_of_state fun other => ?_)
    have busy : (run.master e).busy = true := performs.busy e later le_rfl
    rw [run.busy_low (by rw [other]; decide)] at busy
    cases busy
  · rcases Nat.lt_or_ge i (n + 1 + 1) with early | late
    · obtain rfl | rfl : i = n ∨ i = n + 1 := by omega
      · rw [state]
        decide
      · rw [issuing]
        decide
    · exact stretch.working i late before
  · rw [performs.written rfl, ← Addrval.bytes_eq, ← operands]
    rfl
  · have opening := run.reads_silent positive delays (n := n) (m := n + 1 + 1) settled
      fun i after before => by
        obtain rfl | rfl : i = n ∨ i = n + 1 := by omega
        · exact run.masterRun.idle_of_busy ready.low
        · exact idle
    have frame := performs.reads
    have first : run.bus.wire (n + 1 + 1) = ⟨true, true, false⟩ :=
      run.bus.wire_waits (run.masterRun.waits_next
        (run.waits_of_idle positive delays (by omega) idle) (run.masterRun.idle_command idle))
    have closing := run.reads_silent positive delays (n := e) (m := e + 1) (by omega)
      fun i after before => by
        obtain rfl : i = e := by omega
        exact performs.idle
    rw [show run.masterRun.bus.wire (n + 1 + 1) = ⟨true, true, false⟩ from first] at frame
    have whole := Bus.reads_trans (by omega) (by omega) opening
      (Bus.reads_trans (by omega) (Nat.le_succ e) frame closing)
    rw [List.nil_append, List.append_nil] at whole
    rw [show (run.masterRun.operands (n + 1)) = ((regmap k).operands generics).toMaster from
      congrArg RegmapOperands.toMaster operands] at whole
    exact whole

/-- The first `count` entries go out one after the other. -/
theorem Ready.exists_run {n : Nat} (ready : run.Ready positive delays 0 n) (count : Nat)
    (bound : count ≤ 1024) (entries : ∀ k < count, 0 ≤ (regmap k).slAddr) :
    ∃ (e : Nat) (transcripts : Nat → Transcript), n ≤ e ∧ run.Ready positive delays count e ∧
      (∀ i, n ≤ i → i < e → (run.regs i).state ≠ .s0) ∧
      (∀ k < count, (transcripts k).slots.map Prod.fst = (regmap k).bytes generics) ∧
      Reads (.high true none) (run.bus.samples n (e - n))
        ((List.range count).flatMap fun k =>
          (transcripts k).events ((regmap k).address generics) false)
        (.high true none) := by
  induction count with
  | zero =>
    refine ⟨n, fun _ => ⟨false, []⟩, le_rfl, ready,
      fun i after before => absurd after (Nat.not_le.mpr before),
      fun k early => absurd early (Nat.not_lt_zero k), ?_⟩
    rw [Nat.sub_self]
    exact ⟨rfl, rfl⟩
  | succ count inductionHypothesis =>
    obtain ⟨m, transcripts, later, here, working, written, reads⟩ := inductionHypothesis (by omega)
      fun k inside => entries k (Nat.lt_succ_of_lt inside)
    obtain ⟨e, transcript, after, next, busy, bytes, frame⟩ :=
      here.exists_sent bound (entries count (Nat.lt_succ_self count))
    refine ⟨e, Function.update transcripts count transcript, later.trans after, next,
      fun i begun before => ?_, fun k inside => ?_, ?_⟩
    · rcases Nat.lt_or_ge i m with early | late
      · exact working i begun early
      · exact busy i late before
    · rcases Nat.lt_succ_iff_lt_or_eq.mp inside with less | rfl
      · rw [Function.update_of_ne less.ne]
        exact written k less
      · rwa [Function.update_self]
    · have others : ((List.range count).flatMap fun k =>
          (Function.update transcripts count transcript k).events ((regmap k).address generics)
            false) =
          (List.range count).flatMap fun k =>
            (transcripts k).events ((regmap k).address generics) false :=
        List.flatMap_congr fun k member => by
          rw [Function.update_of_ne (List.mem_range.mp member).ne]
      rw [List.range_succ, List.flatMap_append, others, List.flatMap_singleton,
        Function.update_self]
      exact Bus.reads_trans later after reads frame

/-- After the last entry the machine is idle. -/
theorem Ready.ends {k n : Nat} (ready : run.Ready positive delays k n)
    (last : (regmap k).slAddr < 0) : (run.regs (n + 1)).state = .s0 := by
  have state : (run.regs n).state = .s4 := ready.at_.state
  have value : (run.regs n).addrval = regmap k := ready.at_.addrval_eq
  rw [run.clocked]
  simp only [Regmap.clock, state, ready.low, if_true]
  rw [value, if_pos last]

omit positive delays in
/-- `BUSY` is high until the machine is idle. -/
theorem busy_until {b e : Nat} (begins : run.Begins b)
    (working : ∀ n, b ≤ n → n < e → (run.regs n).state ≠ .s0) {n : Nat} (after : b ≤ n)
    (before : n ≤ e) : (run.regs n).busy = true := by
  induction n, after using Nat.le_induction with
  | base =>
    rcases begins with rfl | ⟨a, rfl, idle, start⟩
    · obtain ⟨before, reset⟩ := run.reset
      rw [reset]
      rfl
    · rw [run.clocked]
      simp only [Regmap.clock, idle, start]
  | succ n after inductionHypothesis =>
    have here := inductionHypothesis (by omega)
    have active := working n after before
    rw [run.clocked]
    cases state : (run.regs n).state with
    | s0 => exact absurd state active
    | s3 | s4 =>
      simp only [Regmap.clock, state]
      split_ifs <;> exact here
    | _ => simp only [Regmap.clock, state, here]

omit positive delays in
theorem state_of_begins {b : Nat} (begins : run.Begins b) : (run.regs b).state = .s1 := by
  rcases begins with rfl | ⟨a, rfl, idle, start⟩
  · obtain ⟨before, reset⟩ := run.reset
    rw [reset]
    rfl
  · rw [run.clocked]
    simp only [Regmap.clock, idle, start, if_true]

omit positive delays in
theorem state_idle {e n : Nat} (idle : (run.regs e).state = .s0) (later : e ≤ n)
    (noStart : ∀ i, e ≤ i → i < n → run.start i = false) : (run.regs n).state = .s0 := by
  induction n, later using Nat.le_induction with
  | base => exact idle
  | succ n later inductionHypothesis =>
    have state := inductionHypothesis fun i after before => noStart i after (by omega)
    rw [run.clocked]
    simp only [Regmap.clock, state, noStart n later (Nat.lt_succ_self n), Bool.false_eq_true,
      if_false]

/-- During the delays the master stays idle. -/
theorem busy_low_until {b f : Nat} (low : (run.master b).busy = false)
    (noPulse : (run.regmapRun positive delays).pulses b (f - b) = []) {n : Nat} (after : b ≤ n)
    (before : n ≤ f) : (run.master n).busy = false := by
  induction n, after using Nat.le_induction with
  | base => exact low
  | succ n after inductionHypothesis =>
    rw [run.busy_next (inductionHypothesis (by omega))]
    have silent := List.flatMap_eq_nil_iff.mp noPulse (n - b) (List.mem_range.mpr (by omega))
    rw [Nat.add_sub_cancel' after] at silent
    refine Bool.eq_false_of_not_eq_true fun pulse => ?_
    rw [show ((run.regmapRun positive delays).regs n).i2cStart = true from pulse] at silent
    exact List.cons_ne_nil _ _ silent

end Delays

/-- After a reset and after every `START`, whatever the slave answers, a receiver reads the table
off the bus: every entry once, in order, and `BUSY` falls behind the last one. -/
theorem configures (positive : 0 < divider) (delays : divider * 8 ≤ generics.delay) (count : Nat)
    (bound : count ≤ 1024) (entries : ∀ k < count, 0 ≤ (regmap k).slAddr)
    (last : (regmap count).slAddr < 0) {b : Nat} (begins : run.Begins b) :
    ∃ e, run.Configures b e count := by
  have first := state_of_begins begins
  obtain ⟨f, waits, at_⟩ := (run.regmapRun positive delays).delay_run _ (n := b)
    (by show 0 < RegmapRun.delays (run.regs b).state; rw [first]; decide) le_rfl
  have giving : (run.regs f).state = .s4 := at_.state
  have late := run.later_of_state delays (n := f) (by rw [giving]; rfl)
  have low {i : Nat} (after : b ≤ i) (before : i ≤ f) : (run.master i).busy = false :=
    busy_low_until (run.busy_low (by rw [first]; decide)) waits.pulses_eq after before
  have ready : run.Ready positive delays 0 f := ⟨at_, low waits.le le_rfl, by omega⟩
  obtain ⟨e, transcripts, later, ended, working, written, reads⟩ :=
    ready.exists_run count bound entries
  have idle : (run.regs (e + 1)).state = .s0 := ended.ends last
  have start : settled divider b ≤ f := max_le waits.le (by omega)
  have behind : b ≤ settled divider b := le_max_left _ _
  have quiet : divider * 6 ≤ settled divider b := le_max_right _ _
  refine ⟨e + 1, by omega, fun n => busy_until begins fun i after before => ?_,
    ⟨transcripts, written, ?_⟩, fun n after noStart => ?_⟩
  · rcases Nat.lt_or_ge i f with early | more
    · exact waits.working i after early
    · rcases Nat.lt_succ_iff_lt_or_eq.mp before with inside | rfl
      · exact working i more inside
      · rw [show (run.regs i).state = .s4 from ended.at_.state]
        decide
  · have first : run.bus.wire (settled divider b) = ⟨true, true, false⟩ :=
      run.bus.wire_waits (run.waits_of_idle positive delays quiet
        (run.masterRun.idle_of_busy (low behind start)))
    have opening := run.reads_silent positive delays (n := settled divider b) (m := f) quiet
      fun i after before => run.masterRun.idle_of_busy (low (behind.trans after) before.le)
    have closing := run.reads_silent positive delays (n := e) (m := e + 1) ended.settled
      fun i after before => by
        obtain rfl : i = e := by omega
        exact run.masterRun.idle_of_busy ended.low
    have whole := Bus.reads_trans start (by omega) opening
      (Bus.reads_trans later (Nat.le_succ e) reads closing)
    rw [List.nil_append, List.append_nil] at whole
    rw [first]
    exact whole
  · constructor
    · rw [run.clocked]
      simp only [Regmap.clock, state_idle idle after noStart]
    · refine run.reads_silent positive delays (by omega) fun i after before =>
        run.idle_of_state ?_
      rw [state_idle idle after fun j begun less => noStart j begun (by omega)]
      decide

/-! The clock chip of the board, with the source's delays and divider, nobody on the bus. -/

section Si5324

/-- `regmap_Si5324_125MHz`. -/
def regmapSi5324 : List Addrval :=
  [⟨0x74, 0x80, -1⟩, ⟨0x68, 0, 0x74⟩, ⟨0x68, 1, 0xE4⟩, ⟨0x68, 2, 0x42⟩, ⟨0x68, 3, 0x15⟩,
    ⟨0x68, 4, 0x92⟩, ⟨0x68, 5, 0xED⟩, ⟨0x68, 6, 0x3F⟩, ⟨0x68, 7, 0x2A⟩, ⟨0x68, 8, 0x00⟩,
    ⟨0x68, 9, 0xC0⟩, ⟨0x68, 10, 0x08⟩, ⟨0x68, 11, 0x40⟩, ⟨0x68, 19, 0x29⟩, ⟨0x68, 20, 0x3E⟩,
    ⟨0x68, 21, 0xFE⟩, ⟨0x68, 22, 0xDF⟩, ⟨0x68, 23, 0x1F⟩, ⟨0x68, 24, 0x3F⟩, ⟨0x68, 25, 0xC0⟩,
    ⟨0x68, 31, 0x00⟩, ⟨0x68, 32, 0x00⟩, ⟨0x68, 33, 0x03⟩, ⟨0x68, 34, 0x00⟩, ⟨0x68, 35, 0x00⟩,
    ⟨0x68, 36, 0x03⟩, ⟨0x68, 40, 0xC0⟩, ⟨0x68, 41, 0x4E⟩, ⟨0x68, 42, 0x03⟩, ⟨0x68, 43, 0x00⟩,
    ⟨0x68, 44, 0x13⟩, ⟨0x68, 45, 0x80⟩, ⟨0x68, 46, 0x00⟩, ⟨0x68, 47, 0x11⟩, ⟨0x68, 48, 0xD4⟩,
    ⟨0x68, 55, 0x00⟩, ⟨0x68, 131, 0x1F⟩, ⟨0x68, 132, 0x02⟩, ⟨0x68, 137, 0x01⟩, ⟨0x68, 138, 0x0F⟩,
    ⟨0x68, 139, 0xFF⟩, ⟨0x68, 142, 0x00⟩, ⟨0x68, 143, 0x00⟩, ⟨0x68, 136, 0x40⟩]

/-- `OTHERS`. -/
def si5324Table (k : Nat) : Addrval := regmapSi5324.getD k ⟨-1, -1, -1⟩

def sourceDelays : RegmapGenerics := ⟨100000000, 1000, 100000, fun _ _ => 0⟩

def powerUp : Nat → Regmap × Master × Core
  | 0 => (Regmap.reset ⟨.s0, true, false, false, 0, 0, ⟨0, 0, 0⟩, ⟨0, 0, 0, 0⟩⟩,
      MasterRun.afterReset.1, MasterRun.afterReset.2)
  | n + 1 =>
    let now := powerUp n
    let regs := now.1.clock sourceDelays si5324Table false now.2.1.busy
    let master := now.2.1.clock now.1.i2cStart now.1.operands.toMaster now.2.2.busy now.2.2.dataRd
    (regs, master, now.2.2.clock 250
      ⟨master.enable, regs.operands.toMaster.slAddr, regs.operands.toMaster.slRw, master.dataWr⟩
      (now.2.2.sda true))

def si5324Run : ConfigRun sourceDelays si5324Table 250 where
  regs n := (powerUp n).1
  master n := (powerUp n).2.1
  core n := (powerUp n).2.2
  start _ := false
  slave _ := true
  reset := ⟨_, rfl⟩
  masterReset := ⟨MasterRun.afterReset.1, rfl⟩
  coreReset := ⟨MasterRun.afterReset.2, rfl⟩
  clocked _ := rfl
  masterClocked _ := rfl
  coreClocked _ := rfl
  steady _ _ _ := rfl

theorem si5324_configured : ∃ e, si5324Run.Configures 0 e 44 :=
  si5324Run.configures (by decide) (by decide) 44 (by decide) (by decide) (by decide) (Or.inl rfl)

end Si5324

end ConfigRun

end K71GbE.I2c
