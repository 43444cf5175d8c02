/-
This file is about `i2c_write_regmap`: after a reset or a `START` it waits,
resets the slave, waits again, and then gives the entries of its table to an
`i2c_master`, one after the other.

The table and the delays are parameters, and so is what `to_unsigned` makes of a
negative number. The master that is attached becomes busy with the clock behind a
start pulse and stays so for any finite time.
-/

import K71GbE.I2c.Master

namespace K71GbE.I2c

/-- `machine_type`. -/
inductive RegmapState where
  | s0 | s1 | s2 | s3 | s4 | s5
deriving DecidableEq, Repr

/-- `addrval_t`: an entry of the table. -/
structure Addrval where
  slAddr : Int
  regAddr : Int
  regVal : Int
deriving DecidableEq, Repr

/-- The delays, and `to_unsigned` of a negative number. -/
structure RegmapGenerics where
  startDelayCycle : Nat
  extRstWidthCycle : Nat
  extRstDelayCycle : Nat
  negative : (width : Nat) → Int → BitVec width

/-- What a start pulse hands to the master. -/
structure RegmapOperands where
  i2cMode : BitVec 2
  i2cSlAddr : BitVec 7
  i2cRegAddr : BitVec 8
  i2cRegVal : BitVec 8
deriving DecidableEq, Repr

/-- The registers of the entity, with the variables of the process. -/
structure Regmap where
  state : RegmapState
  extRstn : Bool
  busy : Bool
  i2cStart : Bool
  cnt : Nat
  i : Nat
  addrval : Addrval
  operands : RegmapOperands
deriving DecidableEq, Repr

/-- `to_unsigned`. -/
def RegmapGenerics.toUnsigned (generics : RegmapGenerics) (value : Int) (width : Nat) :
    BitVec width :=
  if 0 ≤ value then BitVec.ofNat width value.toNat else generics.negative width value

/-- What the machine makes of an entry. -/
def Addrval.operands (addrval : Addrval) (generics : RegmapGenerics) : RegmapOperands where
  i2cMode := if addrval.regVal < 0 then 0 else 1
  i2cSlAddr := generics.toUnsigned addrval.slAddr 7
  i2cRegAddr := generics.toUnsigned addrval.regAddr 8
  i2cRegVal := generics.toUnsigned addrval.regVal 8

namespace Regmap

/-- The asynchronous reset. The table index, the entry and the operands are not in it. -/
def reset (regs : Regmap) : Regmap :=
  { regs with
    state := .s1
    extRstn := true
    cnt := 2
    busy := true
    i2cStart := false }

/-- One rising edge of `CLK`. -/
def clock (generics : RegmapGenerics) (regmap : Nat → Addrval) (regs : Regmap)
    (start i2cBusy : Bool) : Regmap :=
  let next := { regs with extRstn := true, i2cStart := false }
  match regs.state with
  | .s0 =>
    { next with
      cnt := 2
      busy := start
      state := if start then .s1 else .s0 }
  | .s1 =>
    { next with
      busy := true
      cnt := regs.cnt + 1
      state := if regs.cnt + 1 > generics.startDelayCycle then .s2 else .s1 }
  | .s2 =>
    { next with
      extRstn := false
      cnt := regs.cnt + 1
      state := if regs.cnt + 1 > generics.startDelayCycle + generics.extRstWidthCycle then .s3
        else .s2 }
  | .s3 =>
    let next := { next with cnt := regs.cnt + 1 }
    if regs.cnt + 1 >
        generics.startDelayCycle + generics.extRstWidthCycle + generics.extRstDelayCycle then
      { next with i := 0, addrval := regmap 0, state := .s4 }
    else next
  | .s4 =>
    if i2cBusy = false then
      let next := { next with operands := regs.addrval.operands generics }
      if regs.addrval.slAddr < 0 then { next with state := .s0 }
      else { next with i2cStart := true, state := .s5 }
    else next
  | .s5 => { next with i := regs.i + 1, addrval := regmap (regs.i + 1), state := .s4 }

section Edges

variable {generics : RegmapGenerics} {regmap : Nat → Addrval} {regs : Regmap} {start i2cBusy : Bool}

/-- The start pulse comes with `S5`. -/
theorem clock_i2cStart :
    (regs.clock generics regmap start i2cBusy).i2cStart =
      decide ((regs.clock generics regmap start i2cBusy).state = .s5) := by
  cases state : regs.state with
  | s5 =>
    simp only [clock, state]
    rfl
  | _ =>
    simp only [clock, state]
    split_ifs <;> rfl

/-- `S5` comes from `S4`, with an idle master. -/
theorem clock_s5 (pulse : (regs.clock generics regmap start i2cBusy).state = .s5) :
    regs.state = .s4 ∧ i2cBusy = false := by
  cases state : regs.state with
  | s4 =>
    simp only [clock, state] at pulse
    split_ifs at pulse with idle
    exact ⟨rfl, idle⟩
  | s5 =>
    simp only [clock, state] at pulse
    cases pulse
  | _ =>
    simp only [clock, state] at pulse
    split_ifs at pulse

/-- The operands change only in `S4`, with an idle master. -/
theorem clock_operands (busy : regs.state = .s4 → i2cBusy = true) :
    (regs.clock generics regmap start i2cBusy).operands = regs.operands := by
  cases state : regs.state with
  | s4 => simp only [clock, state, busy state, Bool.true_eq_false, if_false]
  | s3 =>
    simp only [clock, state]
    split_ifs <;> rfl
  | _ => simp only [clock, state]

end Edges

end Regmap

/-- The entity before each edge of `CLK` since the end of a reset, with the busy line of the
attached master: it rises with the clock behind a start pulse, at no other one, and it falls again.
-/
structure RegmapRun (generics : RegmapGenerics) (regmap : Nat → Addrval) where
  regs : Nat → Regmap
  start : Nat → Bool
  i2cBusy : Nat → Bool
  reset : ∃ before : Regmap, regs 0 = before.reset
  clocked : ∀ n, regs (n + 1) = (regs n).clock generics regmap (start n) (i2cBusy n)
  idle : i2cBusy 0 = false
  rises : ∀ n, i2cBusy n = false → i2cBusy (n + 1) = (regs n).i2cStart
  falls : ∀ n, ∃ m, n ≤ m ∧ i2cBusy m = false

namespace RegmapRun

variable {generics : RegmapGenerics} {regmap : Nat → Addrval} (run : RegmapRun generics regmap)

/-- The operands at the start pulses among `count` edges. -/
def pulses (n count : Nat) : List RegmapOperands :=
  (List.range count).flatMap fun j =>
    if (run.regs (n + j)).i2cStart then [(run.regs (n + j)).operands] else []

/-- Edge `n` is the first one after a reset or after a `START` that the idle machine has seen. -/
def Begins (n : Nat) : Prop :=
  n = 0 ∨ ∃ a, n = a + 1 ∧ (run.regs a).state = .s0 ∧ run.start a = true

/-- From edge `b` to edge `e` the machine issues the first `count` entries of its table, once each
and in order, and then it is idle. -/
structure Issues (b e count : Nat) : Prop where
  later : b < e
  working : ∀ n, b ≤ n → n < e → (run.regs n).state ≠ .s0
  idle : (run.regs e).state = .s0
  inTable : ∀ n, b ≤ n → n < e → (run.regs n).state = .s4 → (run.regs n).i ≤ 1024
  entries : run.pulses b (e - b) = (List.range count).map fun k => (regmap k).operands generics
  masterIdle : ∀ n, b ≤ n → n < e → (run.regs n).i2cStart = true → run.i2cBusy n = false
  held : ∀ n, b ≤ n → n < e → (run.regs n).i2cStart = true → ∀ m, n ≤ m →
    (∀ i, n < i → i < m → run.i2cBusy i = true) → (run.regs m).operands = (run.regs n).operands
  silent : ∀ n, e ≤ n → (∀ i, e ≤ i → i < n → run.start i = false) →
    (run.regs n).i2cStart = false ∧ (run.regs n).state = .s0

/-! ### What holds at every edge -/

/-- The start pulse is high in `S5` and nowhere else. -/
theorem start_iff (n : Nat) : (run.regs n).i2cStart = decide ((run.regs n).state = .s5) := by
  cases n with
  | zero =>
    obtain ⟨before, reset⟩ := run.reset
    rw [reset]
    rfl
  | succ n =>
    rw [run.clocked]
    exact Regmap.clock_i2cStart

theorem noStart_of_state {n : Nat} (other : (run.regs n).state ≠ .s5) :
    (run.regs n).i2cStart = false := by
  rw [start_iff, decide_eq_false other]

/-- `S5` comes from `S4`, with an idle master. -/
theorem s5_step {n : Nat} (pulse : (run.regs (n + 1)).state = .s5) :
    (run.regs n).state = .s4 ∧ run.i2cBusy n = false := by
  rw [run.clocked] at pulse
  exact Regmap.clock_s5 pulse

theorem masterIdle_of_start {n : Nat} (pulse : (run.regs n).i2cStart = true) :
    run.i2cBusy n = false := by
  rw [start_iff, decide_eq_true_eq] at pulse
  cases n with
  | zero => exact run.idle
  | succ n =>
    obtain ⟨state, idle⟩ := run.s5_step pulse
    rw [run.rises n idle, run.noStart_of_state (by rw [state]; decide)]

/-- The operands change only in `S4`, with an idle master. -/
theorem operands_next {n : Nat} (busy : (run.regs n).state = .s4 → run.i2cBusy n = true) :
    (run.regs (n + 1)).operands = (run.regs n).operands := by
  rw [run.clocked]
  exact Regmap.clock_operands busy

theorem operands_held {n m : Nat} (pulse : (run.regs n).i2cStart = true) (later : n ≤ m)
    (busy : ∀ i, n < i → i < m → run.i2cBusy i = true) :
    (run.regs m).operands = (run.regs n).operands := by
  induction m, later using Nat.le_induction with
  | base => rfl
  | succ m later inductionHypothesis =>
    rw [← inductionHypothesis fun i after before => busy i after (by omega)]
    refine run.operands_next fun state => ?_
    rcases Nat.lt_or_eq_of_le later with after | rfl
    · exact busy m after (Nat.lt_succ_self m)
    · rw [start_iff, state] at pulse
      cases pulse

theorem silent_after {e n : Nat} (idle : (run.regs e).state = .s0) (later : e ≤ n)
    (noStart : ∀ i, e ≤ i → i < n → run.start i = false) :
    (run.regs n).i2cStart = false ∧ (run.regs n).state = .s0 := by
  induction n, later using Nat.le_induction with
  | base => exact ⟨run.noStart_of_state (by rw [idle]; decide), idle⟩
  | succ n later inductionHypothesis =>
    obtain ⟨_, state⟩ := inductionHypothesis fun i after before => noStart i after (by omega)
    have state' : (run.regs (n + 1)).state = .s0 := by
      rw [run.clocked]
      simp only [Regmap.clock, state, noStart n later (Nat.lt_succ_self n), Bool.false_eq_true,
        if_false]
    exact ⟨run.noStart_of_state (by rw [state']; decide), state'⟩

/-! ### Stretches of a run -/

/-- From edge `n` to edge `e` the machine works and issues these operands. -/
structure Stretch (n e : Nat) (entries : List RegmapOperands) : Prop where
  le : n ≤ e
  working : ∀ i, n ≤ i → i < e → (run.regs i).state ≠ .s0
  inTable : ∀ i, n ≤ i → i < e → (run.regs i).state = .s4 → (run.regs i).i ≤ 1024
  pulses_eq : run.pulses n (e - n) = entries

theorem Stretch.append {n m e : Nat} {early late : List RegmapOperands}
    {run : RegmapRun generics regmap}
    (first : run.Stretch n m early) (second : run.Stretch m e late) :
    run.Stretch n e (early ++ late) := by
  refine ⟨first.le.trans second.le, fun i after before => ?_, fun i after before => ?_, ?_⟩
  · rcases Nat.lt_or_ge i m with less | more
    · exact first.working i after less
    · exact second.working i more before
  · rcases Nat.lt_or_ge i m with less | more
    · exact first.inTable i after less
    · exact second.inTable i more before
  · have split : e - n = (m - n) + (e - m) := by
      have := first.le
      have := second.le
      omega
    rw [split, pulses, List.range_add, List.flatMap_append, ← first.pulses_eq, ← second.pulses_eq,
      List.flatMap_map]
    refine congrArg (_ ++ ·) (List.flatMap_congr fun j _ => ?_)
    rw [← Nat.add_assoc, Nat.add_sub_cancel' first.le]

theorem stretch_nil (n : Nat) : run.Stretch n n [] := by
  refine ⟨le_rfl, fun i after before => absurd after (Nat.not_le.mpr before),
    fun i after before => absurd after (Nat.not_le.mpr before), ?_⟩
  rw [Nat.sub_self]
  rfl

theorem stretch_one {n : Nat} (working : (run.regs n).state ≠ .s0)
    (inTable : (run.regs n).state = .s4 → (run.regs n).i ≤ 1024) :
    run.Stretch n (n + 1)
      (if (run.regs n).i2cStart then [(run.regs n).operands] else []) := by
  refine ⟨Nat.le_succ n, fun i after before => ?_, fun i after before => ?_, ?_⟩
  · obtain rfl : i = n := by omega
    exact working
  · obtain rfl : i = n := by omega
    exact inTable
  · rw [Nat.add_sub_cancel_left, pulses, List.range_one, List.flatMap_singleton]
    rfl

/-- The machine is about to give entry `k` to the master. -/
structure AtEntry (k n : Nat) : Prop where
  state : (run.regs n).state = .s4
  i_eq : (run.regs n).i = k
  addrval_eq : (run.regs n).addrval = regmap k

/-- How many of the three delays are still to end. -/
def delays : RegmapState → Nat
  | .s1 => 3
  | .s2 => 2
  | .s3 => 1
  | _ => 0

/-- One clock of a delay. -/
theorem delay_step {n : Nat} (waiting : 0 < delays (run.regs n).state) :
    run.AtEntry 0 (n + 1) ∨
      (run.regs (n + 1)).cnt = (run.regs n).cnt + 1 ∧
        0 < delays (run.regs (n + 1)).state ∧
        (delays (run.regs (n + 1)).state < delays (run.regs n).state ∨
          delays (run.regs (n + 1)).state = delays (run.regs n).state ∧
            (run.regs n).cnt < generics.startDelayCycle + generics.extRstWidthCycle +
              generics.extRstDelayCycle) := by
  have next := run.clocked n
  cases state : (run.regs n).state with
  | s1 =>
    refine Or.inr ?_
    simp only [Regmap.clock, state] at next
    rw [next]
    split
    · exact ⟨rfl, Nat.succ_pos 1, Or.inl (Nat.lt_succ_self 2)⟩
    · exact ⟨rfl, Nat.succ_pos 2, Or.inr ⟨rfl, by omega⟩⟩
  | s2 =>
    refine Or.inr ?_
    simp only [Regmap.clock, state] at next
    rw [next]
    split
    · exact ⟨rfl, Nat.succ_pos 0, Or.inl (Nat.lt_succ_self 1)⟩
    · exact ⟨rfl, Nat.succ_pos 1, Or.inr ⟨rfl, by omega⟩⟩
  | s3 =>
    simp only [Regmap.clock, state] at next
    split at next
    · exact Or.inl ⟨congrArg Regmap.state next, congrArg Regmap.i next,
        congrArg Regmap.addrval next⟩
    · rw [next]
      exact Or.inr ⟨rfl, Nat.succ_pos 0, Or.inr ⟨rfl, by omega⟩⟩
  | _ =>
    rw [state] at waiting
    cases waiting

/-- The delays end, and the machine is at the first entry. -/
theorem delay_run (gap : Nat) {n : Nat} (waiting : 0 < delays (run.regs n).state)
    (size : generics.startDelayCycle + generics.extRstWidthCycle + generics.extRstDelayCycle -
      (run.regs n).cnt + delays (run.regs n).state ≤ gap) :
    ∃ m, run.Stretch n m [] ∧ run.AtEntry 0 m := by
  induction gap generalizing n with
  | zero => omega
  | succ gap inductionHypothesis =>
    have one := run.stretch_one (n := n)
      (fun state => by rw [state] at waiting; cases waiting)
      (fun state => by rw [state] at waiting; cases waiting)
    rw [run.noStart_of_state fun state => by rw [state] at waiting; cases waiting] at one
    rcases run.delay_step waiting with done | ⟨count, more, progress⟩
    · exact ⟨n + 1, one, done⟩
    · obtain ⟨m, stretch, done⟩ := inductionHypothesis more (by omega)
      exact ⟨m, one.append stretch, done⟩

/-- While the master is busy the machine waits. -/
theorem entry_waits {k n m : Nat} (bound : k ≤ 1024) (at_ : run.AtEntry k n) (later : n ≤ m)
    (busy : ∀ i, n ≤ i → i < m → run.i2cBusy i = true) :
    run.Stretch n m [] ∧ run.AtEntry k m := by
  induction m, later using Nat.le_induction with
  | base => exact ⟨run.stretch_nil n, at_⟩
  | succ m later inductionHypothesis =>
    obtain ⟨stretch, state, index, entry⟩ :=
      inductionHypothesis fun i after before => busy i after (by omega)
    have here := busy m later (Nat.lt_succ_self m)
    have one := run.stretch_one (n := m) (by rw [state]; decide) fun _ => by rwa [index]
    rw [run.noStart_of_state (by rw [state]; decide)] at one
    refine ⟨stretch.append one, ?_, ?_, ?_⟩ <;> rw [run.clocked] <;>
      simp only [Regmap.clock, state, here, Bool.true_eq_false, if_false]
    · exact index
    · exact entry

/-- The master becomes idle. -/
theorem entry_reached {k n : Nat} (bound : k ≤ 1024) (at_ : run.AtEntry k n) :
    ∃ m, run.Stretch n m [] ∧ run.AtEntry k m ∧ run.i2cBusy m = false := by
  obtain ⟨later, idle⟩ := Nat.find_spec (run.falls n)
  obtain ⟨stretch, here⟩ := run.entry_waits bound at_ later fun i after before =>
    Bool.eq_true_of_not_eq_false fun low => Nat.find_min (run.falls n) before ⟨after, low⟩
  exact ⟨_, stretch, here, idle⟩

/-- The entries from `k` on are issued, up to the one with a negative slave address. -/
theorem entries_run (left : Nat) {k n : Nat} (bound : k + left ≤ 1024)
    (entries : ∀ i < left, 0 ≤ (regmap (k + i)).slAddr) (last : (regmap (k + left)).slAddr < 0)
    (at_ : run.AtEntry k n) :
    ∃ e, n < e ∧ (run.regs e).state = .s0 ∧
      run.Stretch n e ((List.range left).map fun i => (regmap (k + i)).operands generics) := by
  induction left generalizing k n with
  | zero =>
    obtain ⟨m, stretch, here, idle⟩ := run.entry_reached (by omega) at_
    have one := run.stretch_one (n := m) (by rw [here.state]; decide)
      fun _ => by rw [here.i_eq]; omega
    rw [run.noStart_of_state (by rw [here.state]; decide)] at one
    refine ⟨m + 1, Nat.lt_succ_of_le stretch.le, ?_, stretch.append one⟩
    rw [Nat.add_zero, ← here.addrval_eq] at last
    rw [run.clocked]
    simp only [Regmap.clock, here.state, idle, if_true, last]
  | succ left inductionHypothesis =>
    obtain ⟨m, stretch, here, idle⟩ := run.entry_reached (by omega) at_
    have issues : ¬(run.regs m).addrval.slAddr < 0 := by
      rw [here.addrval_eq]
      exact Int.not_lt.mpr (entries 0 (Nat.succ_pos left))
    have pulse := run.clocked m
    simp only [Regmap.clock, here.state, idle, if_true, issues, if_false] at pulse
    have behind := run.clocked (m + 1)
    rw [pulse] at behind
    simp only [Regmap.clock] at behind
    have next : run.AtEntry (k + 1) (m + 1 + 1) :=
      ⟨congrArg Regmap.state behind, (congrArg Regmap.i behind).trans (by rw [here.i_eq]),
        (congrArg Regmap.addrval behind).trans (by rw [here.i_eq])⟩
    have reads := run.stretch_one (n := m) (by rw [here.state]; decide)
      fun _ => by rw [here.i_eq]; omega
    rw [run.noStart_of_state (by rw [here.state]; decide)] at reads
    have issuing : (run.regs (m + 1)).state = .s5 := congrArg Regmap.state pulse
    have writes := run.stretch_one (n := m + 1) (by rw [issuing]; decide)
      fun state => by rw [issuing] at state; cases state
    rw [pulse] at writes
    obtain ⟨e, later, ended, rest⟩ := inductionHypothesis (k := k + 1) (by omega)
      (fun i inside => by
        have entry := entries (i + 1) (by omega)
        rwa [show k + (i + 1) = k + 1 + i by omega] at entry)
      (by rwa [show k + 1 + left = k + (left + 1) by omega]) next
    refine ⟨e, by have := stretch.le; omega, ended, ?_⟩
    have whole := stretch.append (reads.append (writes.append rest))
    rw [here.addrval_eq] at whole
    rw [List.range_succ_eq_map, List.map_cons, List.map_map]
    refine (congrArg (run.Stretch n e) ?_).mp whole
    refine congrArg (_ :: ·) (List.map_congr_left fun i _ => ?_)
    show (regmap (k + 1 + i)).operands generics = (regmap (k + (i + 1))).operands generics
    rw [show k + (i + 1) = k + 1 + i by omega]

/-- After a reset and after every `START` the machine issues every entry of its table once, in
order, and then it is idle. -/
theorem issues_table (count : Nat) (bound : count ≤ 1024)
    (entries : ∀ k < count, 0 ≤ (regmap k).slAddr) (last : (regmap count).slAddr < 0) {b : Nat}
    (begins : run.Begins b) : ∃ e, run.Issues b e count := by
  have first : (run.regs b).state = .s1 := by
    rcases begins with rfl | ⟨a, rfl, idle, start⟩
    · obtain ⟨before, reset⟩ := run.reset
      rw [reset]
      rfl
    · rw [run.clocked]
      simp only [Regmap.clock, idle, start, if_true]
  obtain ⟨m, waits, at_⟩ := run.delay_run _ (n := b) (by rw [first]; decide) le_rfl
  obtain ⟨e, later, ended, issues⟩ := run.entries_run count (k := 0) (by omega)
    (fun i inside => by rw [Nat.zero_add]; exact entries i inside) (by rwa [Nat.zero_add]) at_
  have whole := waits.append issues
  refine ⟨e, ⟨Nat.lt_of_le_of_lt waits.le later, whole.working, ended, whole.inTable, ?_,
    fun n _ _ => run.masterIdle_of_start, fun n _ _ pulse m => run.operands_held pulse,
    fun n => run.silent_after ended⟩⟩
  rw [whole.pulses_eq, List.nil_append]
  exact List.map_congr_left fun i _ => by rw [Nat.zero_add]

/-! Two entries, with a master that is busy for two clocks each. -/

section Pair

def shortDelays : RegmapGenerics := ⟨1, 1, 1, fun _ _ => 0⟩

def pairTable : Nat → Addrval
  | 0 => ⟨0x74, 0x80, -1⟩
  | 1 => ⟨0x68, 0, 0x74⟩
  | _ => ⟨-1, -1, -1⟩

/-- The registers, and the clocks for which the master is still busy. -/
def pairState : Nat → Regmap × Nat
  | 0 => (Regmap.reset ⟨.s0, true, false, false, 0, 0, ⟨0, 0, 0⟩, ⟨0, 0, 0, 0⟩⟩, 0)
  | n + 1 =>
    let now := pairState n
    (now.1.clock shortDelays pairTable false (now.2 ≠ 0),
      if now.2 = 0 then (if now.1.i2cStart then 2 else 0) else now.2 - 1)

theorem pairState_idle (rest : Nat) {n : Nat} (left : (pairState n).2 = rest) :
    (pairState (n + rest)).2 = 0 := by
  induction rest generalizing n with
  | zero => exact left
  | succ rest inductionHypothesis =>
    have next : (pairState (n + 1)).2 = rest := by
      simp only [pairState, left, Nat.succ_ne_zero, if_false, Nat.add_sub_cancel]
    rw [show n + (rest + 1) = n + 1 + rest by omega]
    exact inductionHypothesis next

def pairRun : RegmapRun shortDelays pairTable where
  regs n := (pairState n).1
  start _ := false
  i2cBusy n := (pairState n).2 ≠ 0
  reset := ⟨_, rfl⟩
  clocked _ := rfl
  idle := rfl
  rises n low := by
    have zero : (pairState n).2 = 0 := by simpa using low
    simp only [pairState, zero, if_true]
    cases (pairState n).1.i2cStart <;> rfl
  falls n := ⟨n + (pairState n).2, Nat.le_add_right _ _, by simp [pairState_idle _ rfl]⟩

theorem pairRun_issues : ∃ e, pairRun.Issues 0 e 2 :=
  pairRun.issues_table 2 (by decide) (by decide) (by decide) (Or.inl rfl)

end Pair

end RegmapRun

end K71GbE.I2c
