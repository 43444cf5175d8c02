/-
This file follows a data FIFO transfer of `control_interface` word by word.

The multiplexer selects the data FIFO exactly in `FIFO_ADV`, whatever commands
came before: the state and the selection change at the same edges. In that state
a word leaves the data FIFO exactly when it is stored in the output FIFO, and the
counter goes down with it. No invariant of the commands is needed, so stalled
reads and a count of 0 are not excluded here.
-/

import K71GbE.Control.Fetching

namespace K71GbE.Control

open Clocked

/-- The data FIFO is selected exactly during a transfer, and the counter is not negative. -/
structure ControlInterface.Selecting (control : ControlInterface) : Prop where
  transfer : control.bMemNotReg = .selFifo ↔ control.cmdState = .fifoAdv
  counted : control.cmdState = .fifoAdv → 0 ≤ control.counterFIFO

/-- A WRITE to address 25 loads the counter and selects the data FIFO. -/
theorem ControlInterface.cmdIF_of_transfer {old : ControlInterface} (ports : Ports)
    (state : old.cmdState = .interpretCmd) (notRead : readNotWrite ports.cmdFifoQ = false)
    (address : target (addressI ports.cmdFifoQ) = .dataFifo) :
    old.cmdIF ports =
      { old.defaults with
        counterFIFO := (dataOf ports.cmdFifoQ).toNat
        bMemNotReg := .selFifo
        cmdState := .fifoAdv } := by
  simp [cmdIF, interpretWrite, state, notRead, address]

theorem ControlInterface.Selecting.powerOn : ControlInterface.powerOn.Selecting := by
  constructor <;> simp [ControlInterface.powerOn, ControlInterface.asyncReset]

theorem ControlInterface.Selecting.step {old next : ControlInterface} {ports : Ports}
    (selecting : old.Selecting) (step : old.Step ports next) : next.Selecting := by
  obtain ⟨transfer, counted⟩ := selecting
  cases step with
  | interpret state moved =>
    have other : old.bMemNotReg ≠ .selFifo := fun selected => by
      rw [transfer, state] at selected
      cases selected
    cases moved with
    | stall => constructor <;> simp [ControlInterface.defaults, state]
    | _ => constructor <;> simp [ControlInterface.defaults, other]
  | transferNext state visible room more =>
    have positive : 1 ≤ old.counterFIFO := by
      have bound := counted state
      omega
    constructor <;> simp [ControlInterface.defaults, state, positive]
  | transferHold state blocked =>
    constructor <;> simp [ControlInterface.defaults, state, counted state]
  | _ => constructor <;> simp [ControlInterface.defaults, *]

namespace System

variable (traffic : Traffic)

/-- The position of the word popped from the data FIFO at this edge. -/
def dataPopped (system : System) (tick : Tick) : List Nat :=
  if system.dataFifo.pops (system.control.dataFifoRdreq (system.ports traffic tick)) then
    [system.dataFifo.popped]
  else []

/-- A WRITE of `n` to address 25 is interpreted at this edge. -/
structure StartsTransfer (system : System) (tick : Tick) (n : Nat) : Prop where
  state : system.control.cmdState = .interpretCmd
  notRead : readNotWrite (system.cmdFifoQ traffic tick) = false
  address : target (addressI (system.cmdFifoQ traffic tick)) = .dataFifo
  data : (dataOf (system.cmdFifoQ traffic tick)).toNat = n

/-- A transfer is under way. -/
def Transferring (system : System) : Prop := system.control.cmdState = .fifoAdv

/-- At this edge the data FIFO has a word and the output FIFO has room. -/
def permits (system : System) (tick : Tick) : Bool := !system.dataFifo.empty && !tick.sFifoFull

section Step

variable {traffic} {system : System} {tick : Tick}

variable (traffic) in
theorem Selecting.clock (selecting : system.control.Selecting) (tick : Tick) :
    (system.clock traffic tick).control.Selecting := by
  obtain ⟨next, step, control⟩ := system.clock_step traffic tick
  rw [control]
  exact ⟨(selecting.step step).transfer, (selecting.step step).counted⟩

variable (traffic) in
theorem selecting_run (memory : BitVec 32 → BitVec 32) (ticks : List Tick) :
    (run (clock traffic) (powerOn memory) ticks).control.Selecting := by
  exact run_always (fun system : System => system.control.Selecting)
    (fun _ tick kept => Selecting.clock traffic kept tick) ControlInterface.Selecting.powerOn ticks

/-- Outside a transfer no word leaves the data FIFO. -/
theorem dataPopped_of_other (selecting : system.control.Selecting)
    (other : ¬system.Transferring) : system.dataPopped traffic tick = [] := by
  refine if_neg ?_
  cases selected : system.control.bMemNotReg with
  | selFifo => exact absurd (selecting.transfer.mp selected) other
  | selReg | selMem => simp [ControlInterface.dataFifoRdreq, selected, Fwft.pops]

/-- A WRITE to address 25 starts a transfer and takes no word. -/
theorem StartsTransfer.clock {n : Nat} (starts : system.StartsTransfer traffic tick n)
    (selecting : system.control.Selecting) :
    (system.clock traffic tick).Transferring ∧
      (system.clock traffic tick).control.counterFIFO = n ∧
      (system.clock traffic tick).dataFifo.popped = system.dataFifo.popped := by
  have control := ControlInterface.cmdIF_of_transfer (system.ports traffic tick) starts.state
    starts.notRead starts.address
  refine ⟨?_, ?_, Fwft.clock_popped_of_not_pops ?_⟩
  · rw [Transferring, clock_control, control]
  · rw [clock_control, control]
    exact congrArg Nat.cast starts.data
  · have other : system.control.bMemNotReg ≠ .selFifo := fun selected => by
      rw [selecting.transfer, starts.state] at selected
      cases selected
    cases selected : system.control.bMemNotReg with
    | selFifo => exact absurd selected other
    | selReg | selMem => simp [ControlInterface.dataFifoRdreq, selected, Fwft.pops]

section Moving

variable (selected : system.control.bMemNotReg = .selFifo)

variable (traffic) in
include selected in
/-- With a word and room, the next word of the data FIFO is popped and stored. -/
theorem move_of_permits (permitted : system.permits tick = true) :
    system.dataPopped traffic tick = [system.dataFifo.popped] ∧
      system.stored traffic tick = [outputWord (traffic.data system.dataFifo.popped)] ∧
      (system.clock traffic tick).dataFifo.popped = system.dataFifo.popped + 1 := by
  simp only [permits, Bool.and_eq_true, Bool.not_eq_true'] at permitted
  obtain ⟨visible, room⟩ := permitted
  have pops : system.dataFifo.pops
      (system.control.dataFifoRdreq (system.ports traffic tick)) = true := by
    simp [ControlInterface.dataFifoRdreq, selected, ports, Fwft.pops, visible, room]
  have word : system.dataFifoQ traffic tick = traffic.data system.dataFifo.popped :=
    Fwft.dout_visible _ _ visible
  refine ⟨if_pos pops, ?_, Fwft.clock_popped_of_pops pops⟩
  simp [stored, offered, ControlInterface.sFifoWren, ControlInterface.sFifoD, selected, ports,
    visible, room, word, outputWord]

variable (traffic) in
include selected in
/-- Without a word or without room, nothing moves. -/
theorem hold_of_not_permits (blocked : system.permits tick = false) :
    system.dataPopped traffic tick = [] ∧ system.stored traffic tick = [] ∧
      (system.clock traffic tick).dataFifo.popped = system.dataFifo.popped := by
  have pops : system.dataFifo.pops
      (system.control.dataFifoRdreq (system.ports traffic tick)) = false := by
    rw [← blocked, permits, Bool.and_comm]
    simp [ControlInterface.dataFifoRdreq, selected, ports, Fwft.pops]
  refine ⟨if_neg (ne_true_of_eq_false pops), ?_, Fwft.clock_popped_of_not_pops pops⟩
  rw [stored]
  split_ifs with full
  · rfl
  · have empty : system.dataFifo.empty = true := by simpa [permits, full] using blocked
    simp [offered, ControlInterface.sFifoWren, selected, ports, empty]

end Moving

section Counting

variable (traffic) (state : system.Transferring)

include state

/-- The word at a count of 0 is the last one. -/
theorem last_of_permits (permitted : system.permits tick = true)
    (last : system.control.counterFIFO = 0) :
    (system.clock traffic tick).control.cmdState = .waitCmd := by
  simp only [permits, Bool.and_eq_true, Bool.not_eq_true'] at permitted
  rw [clock_control]
  simp [ControlInterface.cmdIF, show system.control.cmdState = .fifoAdv from state, ports,
    permitted, ControlInterface.defaults, last]

/-- Every other word counts down. -/
theorem next_of_permits (permitted : system.permits tick = true) {left : Nat}
    (more : system.control.counterFIFO = (left + 1 : Nat)) :
    (system.clock traffic tick).Transferring ∧
      (system.clock traffic tick).control.counterFIFO = left := by
  simp only [permits, Bool.and_eq_true, Bool.not_eq_true'] at permitted
  have nonzero : (left : Int) + 1 ≠ 0 := by omega
  rw [Transferring, clock_control]
  simp [ControlInterface.cmdIF, show system.control.cmdState = .fifoAdv from state, ports,
    permitted, ControlInterface.defaults, more, nonzero]

theorem control_of_hold (blocked : system.permits tick = false) :
    (system.clock traffic tick).Transferring ∧
      (system.clock traffic tick).control.counterFIFO = system.control.counterFIFO := by
  have either : ¬(system.dataFifo.empty = false ∧ tick.sFifoFull = false) := by
    simpa [permits] using blocked
  rw [Transferring, clock_control]
  simp [ControlInterface.cmdIF, show system.control.cmdState = .fifoAdv from state, ports,
    either, ControlInterface.defaults]

end Counting

end Step

/-! ### A whole transfer -/

/-- The transfer is under way all along `ticks`, and `count` words have moved, one at each edge that
permits it. -/
structure Moving (start : System) (ticks : List Tick) (count : Nat) : Prop where
  during : Along (clock traffic) (fun system _ => system.Transferring) start ticks
  popped : log (clock traffic) (dataPopped traffic) start ticks =
    List.range' start.dataFifo.popped count
  stored : log (clock traffic) (stored traffic) start ticks =
    segment traffic.data start.dataFifo.popped count
  permitted :
    (log (clock traffic) (fun system tick => [system.permits tick]) start ticks).count true = count

variable {traffic}

theorem Moving.nil (start : System) : Moving traffic start [] 0 := ⟨trivial, rfl, rfl, rfl⟩

/-- An edge that permits it, and what moves after it. -/
theorem Moving.move {start : System} {tick : Tick} {rest : List Tick} {count : Nat}
    (selecting : start.control.Selecting) (state : start.Transferring)
    (permitted : start.permits tick = true)
    (moving : Moving traffic (start.clock traffic tick) rest count) :
    Moving traffic start (tick :: rest) (count + 1) := by
  obtain ⟨during, popped, stored, counted⟩ := moving
  obtain ⟨one, word, next⟩ := move_of_permits traffic
    (selecting.transfer.mpr state) permitted
  refine ⟨⟨state, during⟩, ?_, ?_, ?_⟩
  · rw [log_cons, one, popped, next]
    rfl
  · rw [log_cons, word, stored, next, segment_succ]
    rfl
  · rw [log_cons, List.count_append, counted, permitted, List.count_singleton_self, Nat.add_comm]

/-- An edge that does not, and what moves after it. -/
theorem Moving.hold {start : System} {tick : Tick} {rest : List Tick} {count : Nat}
    (selecting : start.control.Selecting) (state : start.Transferring)
    (blocked : start.permits tick = false)
    (moving : Moving traffic (start.clock traffic tick) rest count) :
    Moving traffic start (tick :: rest) count := by
  obtain ⟨during, popped, stored, counted⟩ := moving
  obtain ⟨silent, nothing, kept⟩ := hold_of_not_permits traffic
    (selecting.transfer.mpr state) blocked
  refine ⟨⟨state, during⟩, ?_, ?_, ?_⟩
  · rw [log_cons, silent, popped, kept]
    rfl
  · rw [log_cons, nothing, stored, kept]
    rfl
  · rw [log_cons, List.count_append, counted, blocked]
    exact Nat.zero_add count

/-- From a count of `left` on, a transfer moves `left + 1` words and is over, or has moved fewer and
goes on. -/
theorem transfer_of_count {start : System} (selecting : start.control.Selecting)
    (state : start.Transferring) {left : Nat} (count : start.control.counterFIFO = left)
    (ticks : List Tick) :
    (∃ moved ≤ left, Moving traffic start ticks moved ∧
        (run (clock traffic) start ticks).Transferring) ∨
      ∃ during rest, ticks = during ++ rest ∧ Moving traffic start during (left + 1) ∧
        (run (clock traffic) start during).control.cmdState = .waitCmd := by
  induction ticks generalizing start left with
  | nil => exact Or.inl ⟨0, Nat.zero_le left, .nil start, state⟩
  | cons tick rest inductionHypothesis =>
    have kept := Selecting.clock traffic selecting tick
    cases permitted : start.permits tick with
    | false =>
      obtain ⟨still, same⟩ := control_of_hold traffic state permitted
      rcases inductionHypothesis kept still (same.trans count) with
        ⟨moved, few, moving, on⟩ | ⟨during, later, split, moving, ended⟩
      · exact Or.inl ⟨moved, few, moving.hold selecting state permitted, on⟩
      · exact Or.inr ⟨tick :: during, later, by rw [split, List.cons_append],
          moving.hold selecting state permitted, ended⟩
    | true =>
      cases left with
      | zero =>
        have done := last_of_permits traffic state permitted count
        exact Or.inr ⟨[tick], rest, rfl, (Moving.nil _).move selecting state permitted, done⟩
      | succ left =>
        obtain ⟨still, less⟩ := next_of_permits traffic state permitted count
        rcases inductionHypothesis kept still less with
          ⟨moved, few, moving, on⟩ | ⟨during, later, split, moving, ended⟩
        · exact Or.inl ⟨moved + 1, Nat.succ_le_succ few, moving.move selecting state permitted, on⟩
        · exact Or.inr ⟨tick :: during, later, by rw [split, List.cons_append],
            moving.move selecting state permitted, ended⟩

end System

end K71GbE.Control
