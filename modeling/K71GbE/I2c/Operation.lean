/-
This file follows `i2c_master` from an accepted `START` to the end of the
transaction, and from there over whole runs since a reset.

While the machine serves a command its counter holds the rising edges of the
core's busy line but for those of the last two clocks. So the commands it gives
are those of one request, and the bus carries the transaction of that request.
-/

import K71GbE.I2c.Reset
import K71GbE.I2c.Master

namespace K71GbE.I2c

open Clocked Clocked.TwoWire

/-- The bytes of a command behind the address. -/
def Operands.bytes (operands : Operands) : Nat := operands.mode.toNat + 1

theorem Operands.bytes_of_read {operands : Operands} (legal : operands.serving ≠ .stWaitStart)
    (read : operands.slRw = true) : operands.bytes ≤ 2 := by
  unfold serving at legal
  rw [if_neg (by simp [read])] at legal
  rw [bytes]
  split_ifs at legal with one two
  · rw [one]
    decide
  · rw [two]
    decide
  · exact absurd rfl legal

theorem Operands.bytes_le (operands : Operands) : operands.bytes ≤ 4 := by
  have bound := operands.mode.isLt
  rw [bytes]
  omega

/-- What a command asks of the core. -/
def Operands.request (operands : Operands) : Request :=
  ⟨operands.slAddr, operands.slRw, operands.bytes, operands.payload⟩

/-- The two output buffers. -/
def Master.rdData (master : Master) : Nat → BitVec 8
  | 0 => master.rdData0
  | _ => master.rdData1

/-! ### One clock of the machine -/

namespace Master

variable {master : Master} {operands : Operands} {coreBusy : Bool} {coreDataRd : BitVec 8}

theorem clock_waits (waits : master.state = .stWaitStart) (start : Bool) :
    master.clock start operands coreBusy coreDataRd =
      { master with
        enable := false
        dataWr := 0
        busy := start
        state := if start then operands.serving else .stWaitStart
        busyCnt := 0
        busyD1 := coreBusy
        busyD2 := master.busyD1 } := by
  simp [clock, serve, count, waits]

theorem serveWrite_busy (bytes : Nat) :
    (master.serveWrite bytes operands coreBusy).busy = true := by
  unfold serveWrite
  split_ifs <;> rfl

theorem serveRead_busy (bytes : Nat) :
    (master.serveRead bytes coreBusy coreDataRd).busy = true := by
  unfold serveRead keepByte
  cases coreBusy <;> simp only <;> split_ifs <;> rfl

/-- Outside its waiting state the machine is busy. -/
theorem clock_busy (serving : master.state ≠ .stWaitStart) (start : Bool) :
    (master.clock start operands coreBusy coreDataRd).busy = true := by
  show (master.serve start operands coreBusy coreDataRd).busy = true
  unfold serve
  cases state : master.state with
  | stWaitStart => exact absurd state serving
  | stWr1 | stWr2 | stWr3 => exact serveWrite_busy _
  | stRd1 | stRd2 => exact serveRead_busy _

section Serves

variable (legal : operands.serving ≠ .stWaitStart) (serves : master.state = operands.serving)
  (start : Bool)

include legal serves

/-- The mode decides which state serves the command. -/
theorem clock_serveWrite (write : operands.slRw = false) :
    master.clock start operands coreBusy coreDataRd =
      { master.serveWrite operands.bytes operands coreBusy with
        busyCnt := master.count
        busyD1 := coreBusy
        busyD2 := master.busyD1 } := by
  unfold Operands.serving at legal serves
  rw [if_pos write] at legal serves
  split_ifs at legal serves with one two three <;>
    simp_all [clock, serve, Operands.bytes]

theorem clock_serveRead (read : operands.slRw = true) :
    master.clock start operands coreBusy coreDataRd =
      { master.serveRead operands.bytes coreBusy coreDataRd with
        busyCnt := master.count
        busyD1 := coreBusy
        busyD2 := master.busyD1 } := by
  unfold Operands.serving at legal serves
  rw [if_neg (by simp [read])] at legal serves
  split_ifs at legal serves with one two <;>
    simp_all [clock, serve, Operands.bytes]

/-- Another byte is to come. -/
theorem clock_more (more : master.busyCnt.toNat < operands.bytes) :
    (master.clock start operands coreBusy coreDataRd).state = master.state ∧
      (master.clock start operands coreBusy coreDataRd).enable = true ∧
      (operands.slRw = false → (master.clock start operands coreBusy coreDataRd).dataWr =
        operands.payload master.busyCnt.toNat) := by
  cases direction : operands.slRw with
  | false =>
    rw [clock_serveWrite legal serves start direction, serveWrite, if_pos more]
    exact ⟨rfl, rfl, fun _ => rfl⟩
  | true =>
    rw [clock_serveRead legal serves start direction, serveRead, if_pos more]
    refine ⟨?_, rfl, fun write => absurd write Bool.true_eq_false_eq_False⟩
    cases coreBusy
    · simp only [keepByte]
      split_ifs <;> rfl
    · rfl

/-- The last byte is under way, or over. -/
theorem clock_last (last : master.busyCnt.toNat = operands.bytes) :
    (master.clock start operands coreBusy coreDataRd).enable = false ∧
      (master.clock start operands coreBusy coreDataRd).state =
        if coreBusy then master.state else .stWaitStart := by
  have noMore : ¬master.busyCnt.toNat < operands.bytes := by omega
  cases direction : operands.slRw with
  | false =>
    rw [clock_serveWrite legal serves start direction, serveWrite, if_neg noMore, if_pos last]
    exact ⟨rfl, rfl⟩
  | true =>
    rw [clock_serveRead legal serves start direction, serveRead, if_neg noMore, if_pos last]
    exact ⟨rfl, rfl⟩

/-- While the busy line is low the byte of the counter is taken over. -/
theorem clock_rdData (read : operands.slRw = true) (bound : master.busyCnt.toNat ≤ operands.bytes)
    {k : Nat} (two : k < 2) :
    (master.clock start operands coreBusy coreDataRd).rdData k =
      if coreBusy = false ∧ master.busyCnt.toNat = k + 1 then coreDataRd else master.rdData k := by
  have kept (next : Master) (same : next.busyCnt = master.busyCnt) :
      (next.keepByte coreDataRd).rdData k =
        if master.busyCnt.toNat = k + 1 then coreDataRd else next.rdData k := by
    rw [keepByte, same]
    rcases Nat.lt_succ_iff_lt_or_eq.mp two with zero | rfl
    · obtain rfl := Nat.lt_one_iff.mp zero
      split_ifs <;> rfl
    · by_cases one : master.busyCnt.toNat = 1
      · rw [if_pos one, if_neg (by omega)]
        rfl
      · rw [if_neg one]
        split <;> rfl
  rw [clock_serveRead legal serves start read, serveRead]
  rcases Nat.lt_or_eq_of_le bound with more | last
  · rw [if_pos more]
    cases coreBusy with
    | false =>
      refine Eq.trans (kept { master with busy := true, dataWr := 0 } rfl) ?_
      simp only [true_and]
      rfl
    | true => exact (if_neg fun both => absurd both.1 Bool.true_eq_false_eq_False).symm
  · rw [if_neg (by omega), if_pos last]
    cases coreBusy with
    | false =>
      refine Eq.trans (kept { master with busy := true, dataWr := 0 } rfl) ?_
      simp only [true_and]
      rfl
    | true => exact (if_neg fun both => absurd both.1 Bool.true_eq_false_eq_False).symm

end Serves

end Master

namespace MasterRun

variable {divider : Nat} (run : MasterRun divider)

/-- The core and the bus. -/
def bus : Bus divider where
  core := run.core
  command n := ⟨(run.master (n + 1)).enable, (run.operands (n + 1)).slAddr,
    (run.operands (n + 1)).slRw, (run.master (n + 1)).dataWr⟩
  slave := run.slave
  clocked := run.coreClocked
  steady := run.steady

/-- The machine waits. -/
def Idle (n : Nat) : Prop := (run.master n).state = .stWaitStart

/-- `START` is accepted at edge `n`. -/
structure Accepts (n : Nat) : Prop where
  idle : run.Idle n
  start : run.start n = true
  legal : (run.operands n).serving ≠ .stWaitStart

/-- The operands stay as they are at edge `n` until the machine waits again. -/
def Held (n : Nat) : Prop :=
  ∀ m, n ≤ m → (∀ i, n < i → i ≤ m → ¬run.Idle i) → run.operands m = run.operands n

section Edges

variable {n : Nat}

/-- Without a command the core goes on waiting. -/
theorem waits_next (waits : (run.core n).Waits divider)
    (noCommand : (run.bus.command n).ena = false) : (run.core (n + 1)).Waits divider := by
  have positive : 0 < divider := by
    have bound := waits.phased.count_lt
    omega
  have moved : run.core (n + 1) = (run.core n).clock divider (run.bus.command n)
    ((run.core n).sda (run.slave n)) := run.coreClocked n
  rcases waits.clock positive (run.bus.command n) ((run.core n).sda (run.slave n)) with
    stays | ⟨asked, _⟩
  · rwa [moved]
  · rw [noCommand] at asked
    cases asked

/-- A waiting machine gives no command. -/
theorem idle_command (idle : run.Idle n) : (run.bus.command n).ena = false := by
  show (run.master (n + 1)).enable = false
  rw [run.clocked, Master.clock_waits idle]

theorem idle_next (idle : run.Idle n) (refused : ¬run.Accepts n) : run.Idle (n + 1) := by
  rw [Idle, run.clocked, Master.clock_waits idle]
  show (if run.start n then (run.operands n).serving else .stWaitStart) = _
  split
  · rename_i start
    exact by_contra fun legal => refused ⟨idle, start, legal⟩
  · rfl

theorem accepts_next (accepts : run.Accepts n) :
    (run.master (n + 1)).state = (run.operands n).serving ∧
      (run.master (n + 1)).busyCnt = 0 ∧
      (run.master (n + 1)).busyD1 = (run.core n).busy ∧
      (run.master (n + 1)).busyD2 = (run.master n).busyD1 ∧
      (run.master (n + 1)).busy = true := by
  rw [run.clocked, Master.clock_waits accepts.idle, accepts.start, if_pos rfl]
  exact ⟨rfl, rfl, rfl, rfl, rfl⟩

end Edges

/-! ### While a command is served -/

section Service

/-- From the edge behind `START` on the machine serves the command. -/
def Serves (a n : Nat) : Prop :=
  ∀ i, a < i → i ≤ n → (run.master i).state = (run.operands a).serving

variable {a n : Nat} (accepts : run.Accepts a) (held : run.Held a)

include accepts

theorem serves_busy (serves : run.Serves a n) {i : Nat} (later : a < i) (earlier : i ≤ n) :
    ¬run.Idle i := by
  rw [Idle, serves i later earlier]
  exact accepts.legal

include held

theorem serves_operands (serves : run.Serves a n) (later : a ≤ n) :
    run.operands n = run.operands a :=
  held n later fun _ after before => run.serves_busy accepts serves after before

end Service

section Counting

variable {a : Nat} (accepts : run.Accepts a) (rests : (run.core (a + 1)).Rests divider)
  (flat : (run.master (a + 1)).busyD1 = false ∨ (run.master (a + 1)).busyD2 = true)

include accepts

theorem busyCnt_next {n : Nat} (serves : run.Serves a n) (later : a < n) :
    (run.master (n + 1)).busyCnt =
      if (run.master n).busyD2 = false ∧ (run.master n).busyD1 = true then
        (run.master n).busyCnt + 1
      else (run.master n).busyCnt := by
  have serving : (run.master n).state ≠ .stWaitStart :=
    run.serves_busy accepts serves later le_rfl
  rw [run.clocked]
  show (run.master n).count = _
  rw [Master.count, if_neg serving]

omit accepts in
/-- The two delays of the busy line. -/
theorem busy_delays (n : Nat) :
    (run.master (n + 1)).busyD1 = (run.core n).busy ∧
      (run.master (n + 1 + 1)).busyD2 = (run.core n).busy := by
  rw [run.clocked (n + 1), run.clocked n]
  exact ⟨rfl, rfl⟩

include rests flat

theorem busyCnt_first (serves : run.Serves a (a + 2)) :
    (run.master (a + 1)).busyCnt = 0 ∧ (run.master (a + 2)).busyCnt = 0 ∧
      (run.master (a + 3)).busyCnt = 0 := by
  obtain ⟨_, first, _⟩ := run.accepts_next accepts
  have second : (run.master (a + 2)).busyCnt = 0 := by
    rw [run.busyCnt_next accepts (fun i after before => serves i after (by omega)) (by omega),
      first, if_neg]
    rintro ⟨low, high⟩
    rcases flat with off | on
    · rw [off] at high
      cases high
    · rw [on] at low
      cases low
  refine ⟨first, second, ?_⟩
  rw [run.busyCnt_next accepts serves (by omega), second, if_neg]
  rintro ⟨_, high⟩
  rw [(run.busy_delays (a + 1)).1, rests.busy] at high
  cases high

/-- The counter holds the rising edges of the busy line but for those of the last two clocks. -/
theorem busyCnt_eq (j : Nat) (serves : run.Serves a (a + 2 + j)) :
    (run.master (a + 3 + j)).busyCnt = BitVec.ofNat 3 (run.bus.rises (a + 1) j) := by
  induction j with
  | zero => exact (run.busyCnt_first accepts rests flat serves).2.2
  | succ j inductionHypothesis =>
    have serves' : run.Serves a (a + 2 + j) := fun i after before => serves i after (by omega)
    have here := inductionHypothesis serves'
    have late := (run.busy_delays (a + 1 + 1 + j)).1
    have later := (run.busy_delays (a + 1 + j)).2
    rw [show a + 1 + 1 + j = a + 1 + j + 1 by omega,
      show a + 1 + j + 1 + 1 = a + 3 + j by omega] at late
    rw [show a + 1 + j + 1 + 1 = a + 3 + j by omega] at later
    have serving : run.Serves a (a + 3 + j) := fun i after before => serves i after (by omega)
    rw [show a + 3 + (j + 1) = a + 3 + j + 1 by omega, run.busyCnt_next accepts serving (by omega),
      late, later, here, Bus.rises_add, Bus.rises_one, Bus.rise]
    show _ = BitVec.ofNat 3 (_ + (!(run.core (a + 1 + j)).busy &&
      (run.core (a + 1 + j + 1)).busy).toNat)
    cases (run.core (a + 1 + j)).busy <;> cases (run.core (a + 1 + j + 1)).busy <;>
      simp [BitVec.ofNat_add]

end Counting

/-- `START` is accepted at edge `a` with a resting core, and the busy line rises for the first time
at edge `first`. -/
structure Begins (a first : Nat) : Prop where
  accepts : run.Accepts a
  held : run.Held a
  rests : (run.core (a + 1)).Rests divider
  flat : (run.master (a + 1)).busyD1 = false ∨ (run.master (a + 1)).busyD2 = true
  later : a + 1 ≤ first
  quiet : ∀ i, a + 1 ≤ i → i < first → run.bus.rise i = false

section First

variable {a first : Nat} (begins : run.Begins a first)

include begins

/-- The busy line does not rise before edge `first`. -/
theorem rises_before (k : Nat) :
    run.bus.rises (a + 1) k = run.bus.rises first (k - (first - (a + 1))) := by
  have noRise (k : Nat) (inside : k ≤ first - (a + 1)) : run.bus.rises (a + 1) k = 0 := by
    refine List.countP_eq_zero.mpr fun i member => ?_
    have less := List.mem_range.mp member
    rw [begins.quiet (a + 1 + i) (by omega) (by omega)]
    exact Bool.false_ne_true
  rcases Nat.le_total k (first - (a + 1)) with before | after
  · rw [noRise k before, Nat.sub_eq_zero_of_le before]
    rfl
  · obtain ⟨rest, rfl⟩ := Nat.exists_eq_add_of_le after
    rw [Bus.rises_add, noRise _ le_rfl, Nat.zero_add, Nat.add_sub_cancel_left,
      Nat.add_sub_cancel' begins.later]

/-- The counter never runs ahead of the busy line. -/
theorem busyCnt_le {n : Nat} (serves : run.Serves a n) (after : a < n)
    (bound : run.bus.rises first (n - first) ≤ 4) :
    (run.master n).busyCnt.toNat ≤ run.bus.rises first (n - first) := by
  rcases Nat.lt_or_ge n (a + 3) with early | late
  · have zero : (run.master n).busyCnt = 0 := by
      rcases Nat.eq_or_lt_of_le after with rfl | second
      · exact (run.accepts_next begins.accepts).2.1
      · obtain rfl : n = a + 2 := by omega
        exact (run.busyCnt_first begins.accepts begins.rests begins.flat serves).2.1
    rw [zero]
    exact Nat.zero_le _
  · obtain ⟨j, rfl⟩ := Nat.exists_eq_add_of_le late
    have start := begins.later
    rw [run.busyCnt_eq begins.accepts begins.rests begins.flat j
        fun i after before => serves i after (by omega),
      run.rises_before begins]
    have less : run.bus.rises first (j - (first - (a + 1))) ≤
        run.bus.rises first (a + 3 + j - first) := run.bus.rises_le first (by omega)
    rw [BitVec.toNat_ofNat, Nat.mod_eq_of_lt (by omega)]
    exact less

/-- As long as another byte is to come whenever the busy line is low, the machine goes on. -/
theorem serves_until {j : Nat} (paced : run.bus.Paced (run.operands a).request first j) {n : Nat}
    (before : n ≤ first + j) : run.Serves a n := by
  induction n with
  | zero => exact fun i after before => absurd (Nat.lt_of_lt_of_le after before) (Nat.not_lt_zero a)
  | succ n inductionHypothesis =>
    have serves := inductionHypothesis (Nat.le_of_succ_le before)
    intro i after earlier
    rcases Nat.lt_or_eq_of_le earlier with less | rfl
    · exact serves i after (Nat.lt_succ_iff.mp less)
    rcases Nat.eq_or_lt_of_le (Nat.lt_succ_iff.mp after) with rfl | more
    · exact (run.accepts_next begins.accepts).1
    have state := serves n more le_rfl
    have same := run.serves_operands begins.accepts begins.held serves more.le
    have pacedHere : run.bus.Paced (run.operands a).request first (n - first) :=
      fun i inside => paced i (by omega)
    have bound : run.bus.rises first (n - first) ≤ (run.operands a).bytes := pacedHere.rises_le
    have four := (run.operands a).bytes_le
    have count := run.busyCnt_le begins serves more (by omega)
    have legal := begins.accepts.legal
    rw [run.clocked, same]
    rcases Nat.lt_or_eq_of_le (count.trans bound) with more | last
    · rw [(Master.clock_more legal state _ more).1, state]
    · have busy : (run.core n).busy = true := by
        refine Bool.eq_true_of_not_eq_false fun low => ?_
        rcases Nat.lt_or_ge n first with early | late
        · rw [Nat.sub_eq_zero_of_le early.le] at count
          have noRise : run.bus.rises first 0 = 0 := rfl
          have more : 0 < (run.operands a).bytes := Nat.succ_pos _
          omega
        · have place : first + (n - first) = n := by omega
          obtain ⟨less, _⟩ := paced (n - first) (by omega) (by rw [place]; exact low)
          have least : run.bus.rises first (n - first) < (run.operands a).bytes := less
          omega
      rw [(Master.clock_last legal state _ last).2, busy, if_pos rfl, state]

/-- More than a period after the last rising edge the counter holds all of them. -/
theorem busyCnt_settled {j : Nat} (settled : run.bus.Settled first j)
    (paced : run.bus.Paced (run.operands a).request first j) :
    (run.master (first + j)).busyCnt.toNat = run.bus.rises first j := by
  have serves := run.serves_until begins paced le_rfl
  have bound : run.bus.rises first j ≤ (run.operands a).bytes := paced.rises_le
  have four := (run.operands a).bytes_le
  have recent : run.bus.rises first j = run.bus.rises first (j - 2) := by
    obtain ⟨rest, size⟩ := Nat.exists_eq_add_of_le (Nat.sub_le j 2)
    have noRise : run.bus.rises (first + (j - 2)) rest = 0 := by
      refine List.countP_eq_zero.mpr fun i member edge => ?_
      have less := List.mem_range.mp member
      have far := settled (j - 2 + i) (by omega) (by rwa [← Nat.add_assoc])
      have positive := begins.rests.phased.count_lt
      omega
    conv_lhs => rw [size]
    rw [Bus.rises_add, noRise, Nat.add_zero]
  have start := begins.later
  rcases Nat.lt_or_ge (first + j) (a + 3) with early | late
  · have count := run.busyCnt_le begins serves (by omega)
      (by rw [Nat.add_sub_cancel_left]; omega)
    have zero : run.bus.rises first (j - 2) = 0 := by
      rw [show j - 2 = 0 by omega]
      rfl
    rw [Nat.add_sub_cancel_left] at count
    omega
  · obtain ⟨k, place⟩ := Nat.exists_eq_add_of_le late
    rw [place, run.busyCnt_eq begins.accepts begins.rests begins.flat k
        fun i after before => serves i after (by omega),
      run.rises_before begins, show k - (first - (a + 1)) = j - 2 by omega, ← recent,
      BitVec.toNat_ofNat, Nat.mod_eq_of_lt (by omega)]

/-- An edge of `CLK` with the command served. -/
theorem clock_serving {n : Nat} (serves : run.Serves a n) (after : a < n) :
    run.master (n + 1) = (run.master n).clock (run.start n) (run.operands a) (run.core n).busy
      (run.core n).dataRd := by
  rw [run.clocked, run.serves_operands begins.accepts begins.held serves after.le]

/-- If another byte is to come, the command stays for another edge. -/
theorem operands_next {n : Nat} (serves : run.Serves a n) (after : a < n)
    (more : (run.master n).busyCnt.toNat < (run.operands a).bytes) :
    run.operands (n + 1) = run.operands a := by
  refine begins.held (n + 1) (by omega) fun i later before => ?_
  rcases Nat.lt_or_eq_of_le before with less | rfl
  · exact run.serves_busy begins.accepts serves later (by omega)
  · have state := serves n after le_rfl
    rw [Idle, run.clock_serving begins serves after,
      (Master.clock_more begins.accepts.legal state _ more).1, state]
    exact begins.accepts.legal

/-- The commands to the core are those of the request. -/
theorem follows : run.bus.Follows (run.operands a).request first := by
  have legal := begins.accepts.legal
  have start := begins.later
  have paced : run.bus.Paced (run.operands a).request first 0 :=
    fun i early => absurd early (Nat.not_lt_zero i)
  have settled : run.bus.Settled first 0 := fun i early => absurd early (Nat.not_lt_zero i)
  have begun := run.serves_until begins paced (n := first) le_rfl
  have zero : (run.master first).busyCnt.toNat = 0 :=
    run.busyCnt_settled begins settled paced
  refine ⟨congrArg Operands.slAddr (run.operands_next begins begun (by omega) ?_),
    fun j settled paced => ?_⟩
  · rw [zero]
    exact Nat.succ_pos _
  have serves := run.serves_until begins paced le_rfl
  have count := run.busyCnt_settled begins settled paced
  have state := serves (first + j) (by omega) le_rfl
  have bound : run.bus.rises first j ≤ (run.operands a).bytes := paced.rises_le
  have clocked := run.clock_serving begins serves (by omega)
  rw [← count] at bound ⊢
  show (run.operands a).request.Asks _ ⟨(run.master (first + j + 1)).enable,
    (run.operands (first + j + 1)).slAddr, (run.operands (first + j + 1)).slRw,
    (run.master (first + j + 1)).dataWr⟩
  rcases Nat.lt_or_eq_of_le bound with more | last
  · rw [run.operands_next begins serves (by omega) more, clocked]
    obtain ⟨_, enable, value⟩ := Master.clock_more legal state (run.start (first + j)) more
    exact ⟨enable.trans (decide_eq_true more).symm, fun _ => ⟨rfl, value⟩⟩
  · rw [clocked]
    obtain ⟨enable, _⟩ := Master.clock_last legal state (run.start (first + j)) last
    have noMore : ¬(run.master (first + j)).busyCnt.toNat < (run.operands a).bytes := by omega
    exact ⟨enable.trans (decide_eq_false noMore).symm, fun more => absurd more noMore⟩

theorem rdData_next {n : Nat} (serves : run.Serves a n) (after : a < n)
    (read : (run.operands a).slRw = true)
    (bound : (run.master n).busyCnt.toNat ≤ (run.operands a).bytes) {k : Nat} (two : k < 2) :
    (run.master (n + 1)).rdData k =
      if (run.core n).busy = false ∧ (run.master n).busyCnt.toNat = k + 1 then (run.core n).dataRd
      else (run.master n).rdData k := by
  rw [run.clock_serving begins serves after]
  exact Master.clock_rdData begins.accepts.legal (serves n after le_rfl) _ read bound two

/-- Whatever the core has told so far is in the buffers one edge later. -/
theorem rdData_eq (read : (run.operands a).slRw = true) (idle : (run.core first).busy = false)
    (j : Nat) (paced : run.bus.Paced (run.operands a).request first j)
    (lasting : (run.core (first + j)).busy = false → run.bus.Settled first j) (k : Nat)
    {byte : BitVec 8} (told : (run.bus.reports first j)[k]? = some byte) :
    (run.master (first + j + 1)).rdData k = byte := by
  induction j with
  | zero => simp [Bus.reports] at told
  | succ j inductionHypothesis =>
    have start := begins.later
    have known := inductionHypothesis (fun i earlier => paced i (by omega))
      fun low => (paced j (by omega) low).2
    have rises : run.bus.rises first (j + 1) ≤ (run.operands a).bytes := paced.rises_le
    have bound := Operands.bytes_of_read begins.accepts.legal read
    have length := run.bus.reports_length idle (j + 1)
    obtain ⟨inside, _⟩ := List.getElem?_eq_some_iff.mp told
    have serves := run.serves_until begins paced le_rfl
    have count := run.busyCnt_le begins serves (by omega) (by rw [Nat.add_sub_cancel_left]; omega)
    rw [Nat.add_sub_cancel_left] at count
    rw [run.rdData_next begins serves (by omega) read (count.trans rises) (by omega)]
    have grows := run.bus.reports_add first j 1
    rw [Bus.reports_one] at grows
    have here : run.bus.core (first + j + 1) = run.core (first + (j + 1)) := rfl
    rw [here] at grows
    cases low : (run.core (first + (j + 1))).busy with
    | true =>
      rw [low, Bool.not_true, Bool.and_false, if_neg Bool.false_ne_true, List.append_nil] at grows
      rw [if_neg (by simp)]
      exact known (grows ▸ told)
    | false =>
      have all : (run.master (first + (j + 1))).busyCnt.toNat = run.bus.rises first (j + 1) :=
        run.busyCnt_settled begins (lasting low) paced
      have size : (run.bus.reports first (j + 1)).length = run.bus.rises first (j + 1) := by
        have quiet : (run.bus.core (first + (j + 1))).busy = false := low
        rw [← length, quiet]
        rfl
      by_cases last : run.bus.rises first (j + 1) = k + 1
      · rw [if_pos ⟨rfl, all.trans last⟩]
        refine run.bus.reports_last (j + 1) low byte ?_
        rw [List.getLast?_eq_getElem?, size, last]
        exact told
      · rw [if_neg fun both => last (all.symm.trans both.2)]
        refine known ?_
        have less : k < (run.bus.reports first j).length := by
          have most : (run.bus.reports first (j + 1)).length ≤
              (run.bus.reports first j).length + 1 := by
            rw [grows, List.length_append]
            split <;> simp
          omega
        rw [grows, List.getElem?_append_left less] at told
        exact told

section Ending

variable {periods : Nat}
  (finished : run.bus.Finished (run.operands a).request first periods)
  (waits : (run.core (first + periods)).Waits divider)

include finished

theorem busy_until {i : Nat} (after : a < i) (before : i ≤ first + periods + 1) :
    (run.master i).busy = true := by
  have serves := run.serves_until begins finished.paced le_rfl
  rcases Nat.eq_or_lt_of_le after with rfl | more
  · exact (run.accepts_next begins.accepts).2.2.2.2
  · obtain ⟨i, rfl⟩ := Nat.exists_eq_add_one_of_ne_zero (Nat.ne_zero_of_lt more)
    have inside : run.Serves a i := fun j later earlier => serves j later (by omega)
    rw [run.clock_serving begins inside (by omega)]
    refine Master.clock_busy ?_ _
    rw [inside i (by omega) le_rfl]
    exact begins.accepts.legal

include waits

/-- When the core waits again the machine does, too. -/
theorem idle_after :
    run.Idle (first + periods + 1) ∧ (run.core (first + periods + 1)).Waits divider := by
  have start := begins.later
  have serves := run.serves_until begins finished.paced le_rfl
  have state := serves (first + periods) (by omega) le_rfl
  have count := (run.busyCnt_settled begins finished.settled finished.paced).trans
    finished.rises_eq
  have clocked := run.clock_serving begins serves (by omega)
  obtain ⟨enable, next⟩ := Master.clock_last begins.accepts.legal state
    (run.start (first + periods)) count
  constructor
  · rw [Idle, clocked, next, waits.rest.busy]
    rfl
  · have noCommand : (run.bus.command (first + periods)).ena = false := by
      show (run.master (first + periods + 1)).enable = false
      rw [clocked]
      exact enable
    exact run.waits_next waits noCommand

/-- The bytes that the core has told are in the buffers. -/
theorem buffers (read : (run.operands a).slRw = true) (idle : (run.core first).busy = false)
    {bytes : List (BitVec 8)} (told : run.bus.reports first periods = bytes)
    (length : bytes.length = (run.operands a).bytes) :
    bytes = (List.range (run.operands a).bytes).map
      (run.master (first + periods + 1 + 1)).rdData := by
  have ended := (run.idle_after begins finished waits).1
  have kept (k : Nat) : (run.master (first + periods + 1 + 1)).rdData k =
      (run.master (first + periods + 1)).rdData k := by
    rw [run.clocked (first + periods + 1), Master.clock_waits ended]
    cases k <;> rfl
  refine List.ext_getElem (by rw [length, List.length_map, List.length_range]) fun k inside _ => ?_
  rw [List.getElem_map, List.getElem_range, kept]
  refine
    (run.rdData_eq begins read idle periods finished.paced (fun _ => finished.settled) k ?_).symm
  rw [told]
  exact List.getElem?_eq_getElem inside

end Ending

end First

/-! ### The whole operation -/

/-- The command accepted at edge `a` is over at edge `e`: meanwhile the bus has carried one
transaction, with the bytes that the command asks for, and nothing else. -/
structure Performs (a e : Nat) (transcript : Transcript) : Prop where
  later : a < e
  serving : ∀ i, a < i → i < e → ¬run.Idle i
  idle : run.Idle e
  busy : ∀ i, a < i → i ≤ e → (run.master i).busy = true
  falls : run.start e = false → (run.master (e + 1)).busy = false
  length : transcript.slots.length = (run.operands a).bytes
  reads : Reads (.fresh (run.bus.wire (a + 1))) (run.bus.samples (a + 1) (e - (a + 1)))
    (transcript.events ((run.operands a).slAddr ++ BitVec.ofBool (run.operands a).slRw)
      (run.operands a).slRw) (.high true none)
  written : (run.operands a).slRw = false →
    transcript.slots.map Prod.fst =
      (List.range (run.operands a).bytes).map (run.operands a).payload
  returned : (run.operands a).slRw = true →
    transcript.slots.map Prod.fst =
      (List.range (run.operands a).bytes).map (run.master (e + 1)).rdData

section Operation

variable {a : Nat} (accepts : run.Accepts a) (held : run.Held a)
  (rests : (run.core (a + 1)).Rests divider)
  (flat : (run.master (a + 1)).busyD1 = false ∨ (run.master (a + 1)).busyD2 = true)

include accepts held rests flat

/-- The busy line rises. -/
theorem exists_begins :
    ∃ first, run.Begins a first ∧ run.bus.rise first = true := by
  have asked (n : Nat) (later : a + 1 ≤ n)
      (quiet : ∀ i, a + 1 ≤ i → i < n → run.bus.rise i = false) :
      (run.bus.command n).ena = true := by
    have begins : run.Begins a n := ⟨accepts, held, rests, flat, later, quiet⟩
    have settled : run.bus.Settled n 0 := fun i early => absurd early (Nat.not_lt_zero i)
    have asks := (run.follows begins).asks 0 settled fun i early => absurd early (Nat.not_lt_zero i)
    exact asks.1.trans (decide_eq_true (Nat.succ_pos _))
  have bound := rests.phased.count_lt
  have place : ∃ gap, (run.core (a + 1)).count + gap + 1 = divider ∨
      (run.core (a + 1)).count + gap + 1 = divider + divider * 4 := by
    rcases Nat.lt_or_ge (run.core (a + 1)).count divider with early | late
    · exact ⟨divider - 1 - (run.core (a + 1)).count, Or.inl (by omega)⟩
    · exact ⟨divider + divider * 4 - 1 - (run.core (a + 1)).count, Or.inr (by omega)⟩
  obtain ⟨gap, place⟩ := place
  obtain ⟨first, later, rises, quiet⟩ := run.bus.exists_rise gap rests place asked
  exact ⟨first, ⟨accepts, held, rests, flat, later, quiet⟩, rises⟩

theorem exists_performs_waits (positive : 0 < divider) :
    ∃ e transcript, run.Performs a e transcript ∧ (run.core e).Waits divider := by
  obtain ⟨first, begins, rises⟩ := run.exists_begins accepts held rests flat
  obtain ⟨k, pending, waits, still, settles⟩ := run.bus.reads_settling rests
  have later : a + 1 + k ≤ first := by
    refine Nat.le_of_not_lt fun early => ?_
    rw [still first begins.later early] at rises
    cases rises
  obtain ⟨ack, addressed⟩ := run.bus.exists_addressed positive (Nat.succ_pos _) waits later
    (fun n after before => begins.quiet n (by omega) before) rises (run.follows begins) pending
  obtain ⟨transcript, carries⟩ :=
    addressed.exists_carries positive (Nat.succ_pos _) later (run.follows begins)
  have place : first + 1 + divider * 4 * (run.operands a).request.periods =
      first + (1 + divider * 4 * (run.operands a).request.periods) := by omega
  have ends := carries.waits
  rw [place] at ends
  obtain ⟨idle, waits'⟩ := run.idle_after begins carries.finished ends
  have serves := run.serves_until begins carries.finished.paced le_rfl
  have low : (run.core first).busy = false := by
    rw [Bus.rise, Bool.and_eq_true, Bool.not_eq_true'] at rises
    exact rises.1
  refine ⟨_, transcript, ?_, waits'⟩
  refine ⟨?_, fun i after before => ?_, idle, fun i after before => ?_, fun noStart => ?_,
    carries.length, ?_, carries.written, fun read => ?_⟩
  · omega
  · exact run.serves_busy accepts serves after (by omega)
  · exact run.busy_until begins carries.finished after before
  · rw [run.clocked, Master.clock_waits idle]
    exact noStart
  · have split : first + (1 + divider * 4 * (run.operands a).request.periods) + 1 - (a + 1) =
        k + (first + 1 - (a + 1 + k) + divider * 4 * (run.operands a).request.periods) + 1 := by
      omega
    have last : Reads (.high true none)
        (run.bus.samples (first + (1 + divider * 4 * (run.operands a).request.periods)) 1) []
        (.high true none) := by
      rw [run.bus.samples_waits ends]
      exact reads_same _ _ _ _
    rw [split, Bus.samples_add, Bus.samples_add,
      show a + 1 + (k + (first + 1 - (a + 1 + k) +
        divider * 4 * (run.operands a).request.periods)) =
        first + (1 + divider * 4 * (run.operands a).request.periods) by omega]
    have whole := (settles.append carries.reads).append last
    rw [List.nil_append, List.append_nil] at whole
    exact whole
  · refine run.buffers begins carries.finished ends read low ?_ ?_
    · rw [Bus.reports_add, Bus.reports_one]
      have idleFirst : (run.bus.core first).busy = false := low
      rw [idleFirst, Bool.false_and, if_neg Bool.false_ne_true, List.nil_append]
      exact (carries.returned read).1
    · rw [List.length_map]
      exact carries.length

theorem exists_performs (positive : 0 < divider) :
    ∃ e transcript, run.Performs a e transcript ∧ (run.core e).Rests divider := by
  obtain ⟨e, transcript, performs, waits⟩ :=
    run.exists_performs_waits accepts held rests flat positive
  exact ⟨e, transcript, performs, waits.rests⟩

end Operation

/-! ### Runs since a reset -/

/-- `data_clk` rises at edge `n`. -/
def DataRise (n : Nat) : Prop := (run.core n).dataClk = false ∧ (run.core (n + 1)).dataClk = true

section Runs

variable (positive : 0 < divider) (warm : ∀ a, run.Accepts a → ∃ r ≤ a, run.DataRise r)

include positive warm

/-- Before the first rising edge of `data_clk` the reset is still visible. -/
theorem fresh_before {n : Nat} (noRise : ∀ r < n, ¬run.DataRise r) :
    run.Idle n ∧ (run.core n).Fresh ∧ ((run.core n).Phased divider ∨ (run.core n).count = 0) ∧
      (run.master n).busyD1 = true := by
  induction n with
  | zero =>
    obtain ⟨before, master⟩ := run.reset
    obtain ⟨core, reset⟩ := run.coreReset
    rw [Idle, master, reset]
    exact ⟨rfl, core.reset_fresh, Or.inr rfl, rfl⟩
  | succ n inductionHypothesis =>
    obtain ⟨idle, fresh, phase, _⟩ := inductionHypothesis fun r less => noRise r (by omega)
    have refused : ¬run.Accepts n := fun accepts => by
      obtain ⟨r, le, rises⟩ := warm n accepts
      exact noRise r (by omega) rises
    have next := fresh.clock positive phase (run.idle_command idle)
      ((run.core n).sda (run.slave n))
    have moved : run.core (n + 1) = (run.core n).clock divider (run.bus.command n)
      ((run.core n).sda (run.slave n)) := run.coreClocked n
    rw [← moved] at next
    obtain ⟨fresh', phased⟩ := next.2 (noRise n (Nat.lt_succ_self n))
    refine ⟨run.idle_next idle refused, fresh', Or.inl phased, ?_⟩
    rw [(run.busy_delays n).1]
    exact fresh.busy

/-- The first rising edge of `data_clk` leaves the core at rest. -/
theorem rests_first {n : Nat} (noRise : ∀ r < n, ¬run.DataRise r) (rises : run.DataRise n) :
    (run.core (n + 1)).Rests divider := by
  obtain ⟨idle, fresh, phase, _⟩ := run.fresh_before positive warm noRise
  have next := fresh.clock positive phase (run.idle_command idle)
    ((run.core n).sda (run.slave n))
  have moved : run.core (n + 1) = (run.core n).clock divider (run.bus.command n)
    ((run.core n).sda (run.slave n)) := run.coreClocked n
  rw [← moved] at next
  exact next.1 rises

omit positive warm in
theorem rests_idle {n : Nat} (idle : run.Idle n) (rests : (run.core n).Rests divider) :
    (run.core (n + 1)).Rests divider := by
  rcases run.bus.rests_step (n := n) rests with ⟨_, command⟩ | ⟨_, next⟩
  · rw [run.idle_command idle] at command
    cases command
  · exact next

/-- The state behind an accepted `START`, if the core was at rest whenever the machine waited. -/
theorem rests_accepted {a : Nat} (accepts : run.Accepts a)
    (before : (∃ r < a, run.DataRise r) → (run.core a).Rests divider) :
    (run.core (a + 1)).Rests divider ∧
      ((run.master (a + 1)).busyD1 = false ∨ (run.master (a + 1)).busyD2 = true) := by
  obtain ⟨_, _, busyD1, busyD2, _⟩ := run.accepts_next accepts
  by_cases earlier : ∃ r < a, run.DataRise r
  · have rests := before earlier
    exact ⟨run.rests_idle accepts.idle rests, Or.inl (busyD1.trans rests.busy)⟩
  · have noRise : ∀ r < a, ¬run.DataRise r := fun r less rises => earlier ⟨r, less, rises⟩
    obtain ⟨r, le, rises⟩ := warm a accepts
    obtain rfl : r = a := by
      rcases Nat.lt_or_eq_of_le le with less | same
      · exact absurd rises (noRise r less)
      · exact same
    exact ⟨run.rests_first positive warm noRise rises,
      Or.inr (busyD2.trans (run.fresh_before positive warm noRise).2.2.2)⟩

omit positive warm in
/-- The `START` that made the machine leave its waiting state. -/
theorem exists_accepts {n : Nat} (serving : ¬run.Idle n) :
    ∃ a < n, run.Accepts a ∧ ∀ i, a < i → i ≤ n → ¬run.Idle i := by
  induction n with
  | zero =>
    obtain ⟨before, master⟩ := run.reset
    rw [Idle, master] at serving
    exact absurd rfl serving
  | succ n inductionHypothesis =>
    by_cases idle : run.Idle n
    · refine ⟨n, Nat.lt_succ_self n, by_contra fun refused => serving (run.idle_next idle refused),
        fun i after before => ?_⟩
      obtain rfl : i = n + 1 := by omega
      exact serving
    · obtain ⟨a, less, accepts, others⟩ := inductionHypothesis idle
      refine ⟨a, by omega, accepts, fun i after before => ?_⟩
      rcases Nat.lt_or_eq_of_le before with inside | rfl
      · exact others i after (by omega)
      · exact serving

variable (held : ∀ a, run.Accepts a → run.Held a)

include held

/-- Whenever the machine waits, the core is at rest. -/
theorem rests_of_idle {n : Nat} (later : ∃ r < n, run.DataRise r) (idle : run.Idle n) :
    (run.core n).Rests divider := by
  induction n using Nat.strong_induction_on with
  | h n inductionHypothesis =>
    obtain ⟨r, less, rises⟩ := later
    obtain ⟨n, rfl⟩ := Nat.exists_eq_add_one_of_ne_zero (Nat.ne_zero_of_lt less)
    by_cases waiting : run.Idle n
    · by_cases earlier : ∃ r < n, run.DataRise r
      · exact run.rests_idle waiting
          (inductionHypothesis n (Nat.lt_succ_self n) earlier waiting)
      · obtain rfl : r = n := by
          rcases Nat.lt_succ_iff_lt_or_eq.mp less with before | same
          · exact absurd ⟨r, before, rises⟩ earlier
          · exact same
        exact run.rests_first positive warm (fun i before edge => earlier ⟨i, before, edge⟩) rises
    · obtain ⟨a, before, accepts, serving⟩ := run.exists_accepts waiting
      obtain ⟨rests, flat⟩ := run.rests_accepted positive warm accepts
        fun earlier => inductionHypothesis a (by omega) earlier accepts.idle
      obtain ⟨e, _, performs, ends⟩ :=
        run.exists_performs accepts (held a accepts) rests flat positive
      have after : ¬e ≤ n := fun le => serving e performs.later le performs.idle
      have notBefore : ¬n + 1 < e := fun lt => performs.serving (n + 1) (by omega) lt idle
      obtain rfl : e = n + 1 := by omega
      exact ends

/-- If no `START` is accepted before the first rising edge of `data_clk` since the reset, every
accepted `START` makes exactly one transaction, the one it asks for. -/
theorem one_transaction_each {a : Nat} (accepts : run.Accepts a) :
    ∃ e transcript, run.Performs a e transcript := by
  obtain ⟨rests, flat⟩ := run.rests_accepted positive warm accepts
    fun earlier => run.rests_of_idle positive warm held earlier accepts.idle
  obtain ⟨e, transcript, performs, _⟩ :=
    run.exists_performs accepts (held a accepts) rests flat positive
  exact ⟨e, transcript, performs⟩

end Runs

/-! One `START` soon after the reset, with nobody answering on the bus. -/

section Soon

/-- A write without payload. -/
def registerOnly : Operands := ⟨0, false, 0x22, 0x82, 0, 0⟩

def afterReset : Master × Core :=
  (⟨.stWaitStart, false, 0, false, 0, true, true, 0, 0⟩,
    ⟨0, false, false, false, .stReady, true, false, true, true, 7, 0, 0, 0, 0, false⟩)

/-- `START` is high at edge `k` only. -/
def startedAt (k : Nat) : Nat → Master × Core
  | 0 => afterReset
  | n + 1 =>
    let now := startedAt k n
    let master := now.1.clock (n = k) registerOnly now.2.busy now.2.dataRd
    (master, now.2.clock 2 ⟨master.enable, registerOnly.slAddr, registerOnly.slRw, master.dataWr⟩
      (now.2.sda true))

def soon (k : Nat) : MasterRun 2 where
  master n := (startedAt k n).1
  core n := (startedAt k n).2
  start n := n = k
  operands _ := registerOnly
  slave _ := true
  reset := ⟨afterReset.1, rfl⟩
  coreReset := ⟨afterReset.2, rfl⟩
  clocked _ := rfl
  coreClocked _ := rfl
  steady _ _ _ := rfl

theorem soon_held (k a : Nat) : (soon k).Held a := fun _ _ _ => rfl

theorem soon_accepts (k a : Nat) (accepts : (soon k).Accepts a) : a = k :=
  of_decide_eq_true accepts.start

/-- `data_clk` rises with the second clock. -/
theorem one_transaction_of_second :
    ∃ e transcript, (soon 1).Performs 1 e transcript :=
  (soon 1).one_transaction_each (by decide)
    (fun a accepts => ⟨1, (soon_accepts 1 a accepts).ge, by decide, by decide⟩)
    (fun a _ => soon_held 1 a) ⟨rfl, rfl, by decide⟩

theorem events_length (transcript : Transcript) (addrRw : BitVec 8) (rW : Bool) :
    (transcript.events addrRw rW).length = 9 * transcript.slots.length + 11 := by
  have slots (list : List (BitVec 8 × Bool)) :
      (list.flatMap (slotEvents rW)).length = 9 * list.length := by
    induction list with
    | nil => rfl
    | cons slot rest inductionHypothesis =>
      simp only [List.flatMap_cons, List.length_append, inductionHypothesis, List.length_cons,
        slotEvents, byteBits, List.length_map, List.length_range, List.length_nil]
      omega
  rw [Transcript.events]
  simp only [List.length_append, List.length_singleton, slots, byteBits, List.length_map,
    List.length_range]
  omega

/-- With the first clock `START` comes too early: the register address is sent twice. -/
theorem two_bytes_of_first :
    (soon 0).Accepts 0 ∧ ((soon 0).master 0).busy = false ∧ (soon 0).Held 0 ∧
      ¬∃ e transcript, (soon 0).Performs 0 e transcript := by
  refine ⟨⟨rfl, rfl, by decide⟩, rfl, soon_held 0 0, fun ⟨e, transcript, performs⟩ => ?_⟩
  have serving : ∀ i < 235, 0 < i → ((soon 0).master i).state ≠ .stWaitStart := by decide +kernel
  have ended : ((soon 0).master 235).state = .stWaitStart := by decide +kernel
  obtain rfl : e = 235 := by
    rcases Nat.lt_trichotomy e 235 with less | same | more
    · exact absurd performs.idle (serving e less performs.later)
    · exact same
    · exact absurd ended (performs.serving 235 (by decide) more)
  have told := congrArg List.length performs.reads.told
  rw [events_length, performs.length] at told
  have long : (log Receiver.next Receiver.reads (.fresh ((soon 0).bus.wire 1))
      ((soon 0).bus.samples 1 234)).length = 29 := by decide +kernel
  have short : 9 * ((soon 0).operands 0).bytes + 11 = 20 := rfl
  rw [short] at told
  exact absurd (long.symm.trans told) (by decide)

end Soon

end MasterRun

end K71GbE.I2c
