/-
This file is about the two counters of `control_interface` under any command
words and flags, and any reset.

A counter leaves its declared range only through a READ of address 20 that is
taken while the count register is 0: `MEM_RD_CNT` decrements before it tests. Where
that does not happen the counters stay in range, and every READ of address 20
writes as many words as the count register says.
-/

import K71GbE.Clocked.Machine
import K71GbE.Control.Steps

namespace K71GbE.Control

open Clocked

namespace ControlInterface

/-- The counters are in their declared range, and the states that decrement `counterV` have
something to decrement. -/
structure InRange (control : ControlInterface) : Prop where
  counterV : 0 ≤ control.counterV ∧ control.counterV ≤ 65535
  counterFIFO : 0 ≤ control.counterFIFO ∧ control.counterFIFO ≤ 65535
  counting : control.cmdState = .memRdCnt ∨ control.cmdState = .pulseDelay → 1 ≤ control.counterV

/-- The word stored in the output FIFO at this edge. -/
def stores (control : ControlInterface) (ports : Ports) : List (BitVec 36) :=
  if control.sFifoWren ports && !ports.sFifoFull then [control.sFifoD ports] else []

/-- At this edge a READ of address 20 is taken while the count register is 0. -/
def TakesNothing (control : ControlInterface) (ports : Ports) : Prop :=
  ports.reset = false ∧ control.cmdState = .interpretCmd ∧
    readsMemory ports.cmdFifoQ = true ∧ ports.sFifoFull = false ∧ control.sMemioCnt = 0

instance (control : ControlInterface) (ports : Ports) :
    Decidable (control.TakesNothing ports) :=
  inferInstanceAs (Decidable (_ ∧ _ ∧ _ ∧ _ ∧ _))

/-- The counters are in range at every moment of a run, and a READ of address 20 with a count of
`n` writes `n` words to an output FIFO that is never full, and is over. -/
structure Counts (inputs : List Ports) : Prop where
  range : ∀ seen, seen <+: inputs → (run clock powerOn seen).InRange
  reads : ∀ seen first rest, seen ++ first :: rest <+: inputs →
    (run clock powerOn seen).cmdState = .interpretCmd → readsMemory first.cmdFifoQ = true →
    rest.length = (run clock powerOn seen).sMemioCnt.toNat →
    (∀ ports ∈ first :: rest, ports.reset = false ∧ ports.sFifoFull = false) →
    (log clock stores (run clock powerOn seen) (first :: rest)).length =
        (run clock powerOn seen).sMemioCnt.toNat ∧
      (run clock powerOn (seen ++ first :: rest)).cmdState = .waitCmd

/-! ### The invariant -/

/-- The counters are in range, and no word is in flight when a command is interpreted. -/
structure Counting (control : ControlInterface) : Prop extends InRange control where
  strobe : control.cmdState = .interpretCmd → control.sFifoWrreq = false
  selected : control.cmdState = .interpretCmd → control.bMemNotReg ≠ .selFifo

theorem Counting.powerOn : powerOn.Counting := by
  refine ⟨⟨?_, ?_, ?_⟩, ?_, ?_⟩ <;> simp [ControlInterface.powerOn, asyncReset]

theorem Counting.asyncReset {control : ControlInterface} (counting : control.Counting) :
    control.asyncReset.Counting := by
  have fifo := counting.counterFIFO
  refine ⟨⟨?_, fifo, ?_⟩, ?_, ?_⟩ <;> simp [ControlInterface.asyncReset]

theorem Counting.latch {control : ControlInterface} (counting : control.Counting)
    (high : BitVec 16) : { control with sDinHigh := high }.Counting :=
  ⟨⟨counting.counterV, counting.counterFIFO, counting.counting⟩, counting.strobe,
    counting.selected⟩

theorem Counting.step {old next : ControlInterface} {ports : Ports} (counting : old.Counting)
    (step : old.Step ports next) (nonzero : old.cmdState = .interpretCmd →
      readsMemory ports.cmdFifoQ = true → ports.sFifoFull = false → old.sMemioCnt ≠ 0) :
    next.Counting := by
  obtain ⟨⟨⟨low, high⟩, ⟨fifoLow, fifoHigh⟩, counted⟩, strobe, selected⟩ := counting
  have small : ((old.sMemioCnt.toNat : Nat) : Int) ≤ 65535 :=
    Int.ofNat_le.mpr (Nat.le_of_lt_succ old.sMemioCnt.isLt)
  cases step with
  | interpret state moved =>
    cases moved with
    | readMemory read memory room =>
      have nonzero := nonzero state (readsMemory_of read memory) room
      have positive : 1 ≤ ((old.sMemioCnt.toNat : Nat) : Int) :=
        Int.ofNat_le.mpr (BitVec.toNat_pos_of_ne_zero nonzero)
      refine ⟨⟨⟨Int.natCast_nonneg _, small⟩, ⟨fifoLow, fifoHigh⟩, fun _ => positive⟩, ?_, ?_⟩ <;>
        simp
    | stall read memory full =>
      refine ⟨⟨⟨Int.natCast_nonneg _, small⟩, ⟨fifoLow, fifoHigh⟩, ?_⟩, ?_, ?_⟩ <;>
        simp [defaults, state]
    | writeDataFifo notRead register =>
      have data : (((dataOf ports.cmdFifoQ).toNat : Nat) : Int) ≤ 65535 :=
        Int.ofNat_le.mpr (Nat.le_of_lt_succ (dataOf ports.cmdFifoQ).isLt)
      refine ⟨⟨⟨low, high⟩, ⟨Int.natCast_nonneg _, data⟩, ?_⟩, ?_, ?_⟩ <;> simp
    | _ =>
      refine ⟨⟨⟨?_, ?_⟩, ⟨fifoLow, fifoHigh⟩, ?_⟩, ?_, ?_⟩ <;> simp [defaults, low, high]
  | memNext state more room =>
    have positive := counted (Or.inl state)
    refine ⟨⟨⟨?_, ?_⟩, ⟨fifoLow, fifoHigh⟩, ?_⟩, ?_, ?_⟩ <;> simp [defaults, state] <;> omega
  | pulseHold state more =>
    have positive := counted (Or.inr state)
    refine ⟨⟨⟨?_, ?_⟩, ⟨fifoLow, fifoHigh⟩, ?_⟩, ?_, ?_⟩ <;> simp [defaults, state] <;> omega
  | transferNext state visible room more =>
    refine ⟨⟨⟨low, high⟩, ⟨?_, ?_⟩, ?_⟩, ?_, ?_⟩ <;> simp [defaults, state] <;> omega
  | memHold state more full =>
    have positive := counted (Or.inl state)
    refine ⟨⟨⟨low, high⟩, ⟨fifoLow, fifoHigh⟩, ?_⟩, ?_, ?_⟩ <;> simp [defaults, state, positive]
  | _ =>
    refine ⟨⟨⟨?_, ?_⟩, ⟨fifoLow, fifoHigh⟩, ?_⟩, ?_, ?_⟩ <;> simp [defaults, *]

/-- Outside reset an edge is one transition of the command process. -/
theorem clock_eq (control : ControlInterface) {ports : Ports} (noReset : ports.reset = false) :
    control.clock ports = { control.cmdIF ports with sDinHigh := dataOf ports.cmdFifoQ } := by
  rw [clock, noReset]
  rfl

theorem Counting.clock {control : ControlInterface} (counting : control.Counting) {ports : Ports}
    (takes : ¬control.TakesNothing ports) : (control.clock ports).Counting := by
  cases reset : ports.reset with
  | true =>
    rw [ControlInterface.clock, reset]
    exact counting.asyncReset.latch _
  | false =>
    rw [clock_eq control reset]
    refine (counting.step (cmdIF_step control ports) fun state asked room zero => ?_).latch _
    exact takes ⟨reset, state, asked, room, zero⟩

theorem counting_run {inputs : List Ports}
    (along : Along clock (fun control ports => ¬control.TakesNothing ports) powerOn inputs) :
    (run clock powerOn inputs).Counting :=
  run_invariant Counting (fun _ _ counting takes => counting.clock takes) .powerOn along

/-! ### Reading the memory -/

/-- A strobe in `MEM_RD_CNT` stores a word of the memory. -/
theorem length_stores_of_strobe {control : ControlInterface} {ports : Ports}
    (strobe : control.sFifoWrreq = true) (selected : control.bMemNotReg = .selMem)
    (room : ports.sFifoFull = false) : (control.stores ports).length = 1 := by
  have stored : (control.sFifoWren ports && !ports.sFifoFull) = true := by
    simp [sFifoWren, selected, strobe, room]
  rw [stores, if_pos stored, List.length_singleton]

/-- With `left + 1` words to go and room for each of them, these words are written and the READ is
over. -/
theorem writes_of_count {control : ControlInterface} {left : Nat} {inputs : List Ports}
    (state : control.cmdState = .memRdCnt) (count : control.counterV = (left + 1 : Nat))
    (strobe : control.sFifoWrreq = true) (selected : control.bMemNotReg = .selMem)
    (length : inputs.length = left + 1)
    (never : ∀ ports ∈ inputs, ports.reset = false ∧ ports.sFifoFull = false) :
    (log clock stores control inputs).length = left + 1 ∧
      (run clock control inputs).cmdState = .waitCmd := by
  induction left generalizing control inputs with
  | zero =>
    obtain ⟨ports, rfl⟩ := List.length_eq_one_iff.mp length
    obtain ⟨reset, room⟩ := never ports (List.mem_singleton_self ports)
    constructor
    · rw [log_cons, log_nil, List.append_nil, length_stores_of_strobe strobe selected room]
    · rw [run_cons, run_nil, clock_eq control reset]
      simp [cmdIF, state, defaults, count]
  | succ left inductionHypothesis =>
    cases inputs with
    | nil => cases length
    | cons ports rest =>
      obtain ⟨⟨reset, room⟩, later⟩ := List.forall_mem_cons.mp never
      have next : control.clock ports =
          { control.defaults with
            counterV := control.counterV - 1
            sFifoWrreq := true
            sAddrA := control.sAddrA + 1
            sDinHigh := dataOf ports.cmdFifoQ } := by
        have more : control.counterV - 1 ≠ 0 := by omega
        rw [clock_eq control reset]
        simp [cmdIF, state, defaults, room, more]
      have less : control.counterV - 1 = (left + 1 : Nat) := by omega
      obtain ⟨written, ended⟩ := inductionHypothesis
        (show (control.clock ports).cmdState = .memRdCnt by rw [next]; exact state)
        (by rw [next]; exact less) (by rw [next]) (by rw [next]; exact selected)
        (Nat.succ.inj length) later
      rw [log_cons, List.length_append, length_stores_of_strobe strobe selected room, written,
        run_cons, Nat.add_comm]
      exact ⟨rfl, ended⟩

/-- A READ of address 20 that finds room and a count other than 0. -/
theorem Counting.reads {control : ControlInterface} (counting : control.Counting)
    {first : Ports} {rest : List Ports} (state : control.cmdState = .interpretCmd)
    (asked : readsMemory first.cmdFifoQ = true) (nonzero : control.sMemioCnt ≠ 0)
    (length : rest.length = control.sMemioCnt.toNat)
    (never : ∀ ports ∈ first :: rest, ports.reset = false ∧ ports.sFifoFull = false) :
    (log ControlInterface.clock stores control (first :: rest)).length = control.sMemioCnt.toNat ∧
      (run ControlInterface.clock control (first :: rest)).cmdState = .waitCmd := by
  obtain ⟨⟨reset, room⟩, later⟩ := List.forall_mem_cons.mp never
  obtain ⟨left, count⟩ := Nat.exists_eq_succ_of_ne_zero
    (Nat.ne_of_gt (BitVec.toNat_pos_of_ne_zero nonzero))
  obtain ⟨read, memory⟩ := Bool.and_eq_true_iff.mp asked
  have next : control.clock first =
      { control.defaults with
        counterV := control.sMemioCnt.toNat
        bMemNotReg := .selMem
        sFifoWrreq := true
        sAddrA := control.sAddrA + 1
        cmdState := .memRdCnt
        sDinHigh := dataOf first.cmdFifoQ } := by
    rw [clock_eq control reset]
    simp [cmdIF, interpretRead, state, read, eq_of_beq memory, room, defaults]
  have noStore : control.stores first = [] := by
    have strobe : control.sFifoWren first = false := by
      unfold sFifoWren
      cases selected : control.bMemNotReg with
      | selFifo => exact absurd selected (counting.selected state)
      | selReg | selMem => exact counting.strobe state
    rw [stores, strobe]
    rfl
  rw [log_cons, noStore, List.nil_append, run_cons, count]
  refine writes_of_count ?_ ?_ ?_ ?_ (length.trans count) later
  · rw [next]
  · rw [next]
    exact congrArg Nat.cast count
  · rw [next]
  · rw [next]

/-- The counters stay in range, and every READ of address 20 writes as many words as it should, if
and only if none is taken while the count register is 0. -/
theorem counts_iff (inputs : List Ports) :
    Counts inputs ↔
      Along clock (fun control ports => ¬control.TakesNothing ports) powerOn inputs := by
  constructor
  · intro counts
    refine along_iff_steps.mpr fun seen input later split takes => ?_
    obtain ⟨reset, state, asked, room, zero⟩ := takes
    obtain ⟨read, memory⟩ := Bool.and_eq_true_iff.mp asked
    have within : seen ++ [input] <+: inputs :=
      ⟨later, by rw [split, List.append_assoc, List.singleton_append]⟩
    have counting := (counts.range _ within).counting
    rw [run_concat, clock_eq _ reset] at counting
    simp [cmdIF, interpretRead, state, read, eq_of_beq memory, room, zero] at counting
  · intro along
    refine ⟨fun seen within => ?_, fun seen first rest within state asked length never => ?_⟩
    · obtain ⟨later, rfl⟩ := within
      exact (counting_run ((along_append _ _ _ seen later).mp along).1).toInRange
    · obtain ⟨later, rfl⟩ := within
      obtain ⟨before, takes, -⟩ :=
        (along_append _ _ _ seen (first :: rest)).mp ((along_append _ _ _ _ later).mp along).1
      obtain ⟨reset, room⟩ := never first List.mem_cons_self
      rw [run_append]
      exact (counting_run before).reads state asked
        (fun zero => takes ⟨reset, state, asked, room, zero⟩) length never

/-- A word on the output of the command FIFO, with room in the output FIFO. -/
def command (word : BitVec 32) : Ports := ⟨false, 0#4 ++ word, false, 0, 0, 0, true, false⟩

/-- The count register is set to 0 and address 20 is read. The counter goes below 0. -/
theorem count_below_zero :
    ¬Counts ([0, 0, 0x00100000, 0, 0x80140000, 0].map command) ∧
      (run clock powerOn ([0, 0, 0x00100000, 0, 0x80140000, 0].map command)).counterV = -1 := by
  have below : (run clock powerOn
      ([0, 0, 0x00100000, 0, 0x80140000, 0].map command)).counterV = -1 := by decide +kernel
  refine ⟨fun counts => ?_, below⟩
  have range := (counts.range _ (List.prefix_refl _)).counterV.1
  rw [below] at range
  exact absurd range (by decide)

end ControlInterface

end K71GbE.Control
