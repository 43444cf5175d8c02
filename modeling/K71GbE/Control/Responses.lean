/-
This file proves what becomes of the answers of `control_interface` behind an
output FIFO of finite capacity.

The full flag is sampled one clock before the registered strobe reaches the
FIFO. A word whose strobe meets a full FIFO is dropped, and a READ of address 20
that is interpreted while the FIFO is full is lost altogether. Where neither
happens, the words delivered, the words in the FIFO and the words still owed are
the answers of the interpreter.
-/

import K71GbE.Control.Refinement

namespace K71GbE.Control

open Clocked

/-- What the surroundings and the reader of the output FIFO decide at one clock edge. The full flag
of the tick is replaced by that of the FIFO. -/
structure Moment where
  tick : Tick
  reads : Nat

/-- `control_interface` in its surroundings, with an output FIFO of `capacity` words. -/
structure Link (capacity : Nat) where
  system : System
  output : Bounded (BitVec 36) capacity

namespace Link

variable {capacity : Nat}

/-- After reset, with every FIFO empty. -/
def powerOn (memory : BitVec 32 → BitVec 32) : Link capacity := ⟨.powerOn memory, .new⟩

/-- The tick `control_interface` sees. -/
def tick (link : Link capacity) (moment : Moment) : Tick :=
  { moment.tick with sFifoFull := link.output.full }

variable (traffic : Traffic)

/-- One rising edge of `CLK`. -/
def clock (link : Link capacity) (moment : Moment) : Link capacity where
  system := link.system.clock traffic (link.tick moment)
  output := link.output.clock (link.system.offered traffic (link.tick moment)) moment.reads

/-- The commands popped at this edge. -/
def received (link : Link capacity) (moment : Moment) : List Given :=
  link.system.received traffic (link.tick moment)

/-- A READ of address 20 is interpreted while the count register is 0. -/
def readsNothing (link : Link capacity) (moment : Moment) : Bool :=
  link.system.readsNothing traffic (link.tick moment)

/-- The output FIFO is full while a strobe is high, or while a READ of address 20 is
interpreted. -/
def overruns (link : Link capacity) (moment : Moment) : Bool :=
  link.system.drops (link.tick moment) || link.system.stalls traffic (link.tick moment)

/-- The link after a run from reset. -/
def after (capacity : Nat) (memory : BitVec 32 → BitVec 32) (moments : List Moment) :
    Link capacity :=
  run (clock traffic) (powerOn memory) moments

/-- The commands popped in a run from reset. -/
def given (capacity : Nat) (memory : BitVec 32 → BitVec 32) (moments : List Moment) : List Given :=
  log (clock traffic) (received traffic) (powerOn memory : Link capacity) moments

/-- No answer is lost: what was delivered, what the FIFO holds and what is still to be written are
the answers to the commands popped so far, and between commands the address register is where they
leave it. -/
def Answered (capacity : Nat) (memory : BitVec 32 → BitVec 32) (moments : List Moment) : Prop :=
  let link := after traffic capacity memory moments
  let given := given traffic capacity memory moments
  link.output.delivered ++ link.output.contents ++ link.system.owed traffic =
      Interpreter.answers traffic.data memory given ∧
    (link.system.control.cmdState = .waitCmd →
      link.system.control.sAddrA = (Interpreter.interpret memory (given.map Given.word)).address)

instance (capacity : Nat) (memory : BitVec 32 → BitVec 32) (moments : List Moment) :
    Decidable (Answered traffic capacity memory moments) :=
  inferInstanceAs (Decidable (_ ∧ (_ → _)))

/-- The refinement of the interpreter, with the output FIFO beside it. -/
def refinement (capacity : Nat) :
    Refinement (clock traffic : Link capacity → Moment → Link capacity)
      (fun state given => Interpreter.step state (Given.word given))
      (Interpreter.reply traffic.data) :=
  (System.refinement traffic).around system tick fun _ _ => rfl

/-! ### What is stored -/

/-- The words stored at this edge. -/
def stored (link : Link capacity) (moment : Moment) : List (BitVec 36) :=
  link.system.stored traffic (link.tick moment)

variable {traffic} {memory : BitVec 32 → BitVec 32} {moments : List Moment} {moment : Moment}

theorem clock_words (link : Link capacity) (moment : Moment) :
    (link.clock traffic moment).output.delivered ++ (link.clock traffic moment).output.contents =
      link.output.delivered ++ link.output.contents ++ link.stored traffic moment :=
  Bounded.clock_words _ _ moment.reads

/-- The words stored are those delivered and those in the FIFO. -/
theorem log_stored (traffic : Traffic) (capacity : Nat) (memory : BitVec 32 → BitVec 32)
    (moments : List Moment) :
    log (clock traffic) (stored traffic) (powerOn memory : Link capacity) moments =
      (after traffic capacity memory moments).output.delivered ++
        (after traffic capacity memory moments).output.contents := by
  induction moments using List.reverseRecOn with
  | nil => rfl
  | append_singleton moments moment inductionHypothesis =>
    rw [log_concat, inductionHypothesis, after, after, run_concat, clock_words]

/-- The clocks at which the refinement holds: neither a count of 0 nor a stall. -/
theorem along_admits
    (nonzero : Along (clock traffic) (fun link moment => link.readsNothing traffic moment = false)
      (powerOn memory : Link capacity) moments)
    (along : Along (clock traffic) (fun link moment => link.overruns traffic moment = false)
      (powerOn memory : Link capacity) moments) :
    Along (clock traffic) (refinement traffic capacity).admits (powerOn memory) moments :=
  (nonzero.and along).mono fun _ _ both => ⟨(Bool.or_eq_false_iff.mp both.2).2, both.1⟩

/-- Without an overrun every word put on the output is stored. -/
theorem emitted_eq_stored {link : Link capacity}
    (noOverrun : link.overruns traffic moment = false) :
    (refinement traffic capacity).emitted link moment = link.stored traffic moment := by
  have kept : link.system.drops (link.tick moment) = false :=
    (Bool.or_eq_false_iff.mp noOverrun).1
  show link.system.emitted traffic (link.tick moment) = _
  rw [System.emitted, kept, if_neg Bool.false_ne_true, List.append_nil, stored]

/-- A stalled READ of the memory owes nothing. -/
theorem owed_of_stall {system : System} {tick : Tick}
    (stall : system.stalls traffic tick = true) :
    (system.clock traffic tick).owed traffic = [] := by
  simp only [System.stalls, Bool.and_eq_true, beq_iff_eq] at stall
  obtain ⟨state, asked, full⟩ := stall
  have control := ControlInterface.cmdIF_of_stall (system.ports traffic tick) state asked full
  unfold System.owed System.inFlight
  rw [System.clock_control, control]
  simp [ControlInterface.defaults, state]

section Admitted

variable (admitted : Along (clock traffic) (refinement traffic capacity).admits (powerOn memory)
  moments)

include admitted

theorem coherent_after : (after traffic capacity memory moments).system.Coherent :=
  (refinement traffic capacity).run_holds
    (show (refinement traffic capacity).holds (powerOn memory) from System.Coherent.powerOn memory)
    admitted

/-- The interpreter on the commands popped. -/
theorem meaning_after :
    (after traffic capacity memory moments).system.meaning =
      Interpreter.interpret memory ((given traffic capacity memory moments).map Given.word) :=
  meaning_of_refinement (refinement traffic capacity) (System.Coherent.powerOn memory)
    (System.meaning_powerOn memory) admitted

/-- What is put on the output and still owed is the answers to the commands popped. -/
theorem emitted_answers :
    log (clock traffic) (refinement traffic capacity).emitted (powerOn memory) moments ++
        (after traffic capacity memory moments).system.owed traffic =
      Interpreter.answers traffic.data memory (given traffic capacity memory moments) :=
  answers_of_refinement (refinement traffic capacity) (System.Coherent.powerOn memory)
    (System.meaning_powerOn memory) rfl admitted

/-- Between commands the address register is the interpreter's. -/
theorem address_after
    (state : (after traffic capacity memory moments).system.control.cmdState = .waitCmd) :
    (after traffic capacity memory moments).system.control.sAddrA =
      (Interpreter.interpret memory
        ((given traffic capacity memory moments).map Given.word)).address := by
  rw [← meaning_after admitted, System.meaning, state]

end Admitted

theorem log_emitted
    (along : Along (clock traffic) (fun link moment => link.overruns traffic moment = false)
      (powerOn memory : Link capacity) moments) :
    log (clock traffic) (refinement traffic capacity).emitted (powerOn memory) moments =
      log (clock traffic) (stored traffic) (powerOn memory : Link capacity) moments :=
  log_congr (along.mono fun _ _ kept => emitted_eq_stored kept)

section Kept

variable
  (nonzero : Along (clock traffic) (fun link moment => link.readsNothing traffic moment = false)
    (powerOn memory : Link capacity) moments)
  (along : Along (clock traffic) (fun link moment => link.overruns traffic moment = false)
    (powerOn memory : Link capacity) moments)

include nonzero along

/-- Without an overrun no answer is lost. -/
theorem answered_of_along : Answered traffic capacity memory moments := by
  have admitted := along_admits nonzero along
  refine ⟨?_, address_after admitted⟩
  rw [← log_stored, ← log_emitted along]
  exact emitted_answers admitted

/-- A dropped word is missing from what was delivered and stored. -/
theorem not_answered_of_drop
    (drop : (after traffic capacity memory moments).system.drops
      ((after traffic capacity memory moments).tick moment) = true) :
    ¬Answered traffic capacity memory (moments ++ [moment]) := by
  intro answered
  have admitted := along_admits nonzero along
  obtain ⟨strobe, full⟩ := Bool.and_eq_true_iff.mp drop
  have other : (after traffic capacity memory moments).system.control.cmdState ≠
      .interpretCmd := by
    rcases (coherent_after admitted).control.strobe strobe with state | state <;> simp [state]
  have regular : (refinement traffic capacity).admits (after traffic capacity memory moments)
      moment := ⟨by simp [System.stalls, other], by simp [System.readsNothing, other]⟩
  have answers := emitted_answers ((along_concat _ _ _ moments moment).mpr ⟨admitted, regular⟩)
  have missing : (refinement traffic capacity).emitted (after traffic capacity memory moments)
      moment = stored traffic (after traffic capacity memory moments) moment ++
        (after traffic capacity memory moments).system.inFlight := by
    show System.emitted traffic _ _ = _
    rw [System.emitted, drop, if_pos rfl, stored]
  have lengths := congrArg List.length (answered.1.trans answers.symm)
  have one : (after traffic capacity memory moments).system.inFlight.length = 1 := by
    rw [System.inFlight, strobe, if_pos rfl]
    split <;> rfl
  rw [← log_stored, log_concat, log_concat, log_emitted along] at lengths
  change (_ ++ stored traffic (after traffic capacity memory moments) moment ++ _).length =
    (_ ++ (refinement traffic capacity).emitted (after traffic capacity memory moments) moment
      ++ _).length at lengths
  rw [missing] at lengths
  simp only [List.length_append, one] at lengths
  omega

/-- A stalled READ of the memory is popped, and answered by nothing. -/
theorem not_answered_of_stall
    (now : (after traffic capacity memory moments).readsNothing traffic moment = false)
    (stall : (after traffic capacity memory moments).system.stalls traffic
      ((after traffic capacity memory moments).tick moment) = true) :
    ¬Answered traffic capacity memory (moments ++ [moment]) := by
  intro answered
  obtain ⟨before, _⟩ := answered_of_along nonzero along
  obtain ⟨words, _⟩ := answered
  have coherent := coherent_after (along_admits nonzero along)
  have meaning := meaning_after (along_admits nonzero along)
  have after_concat : after traffic capacity memory (moments ++ [moment]) =
      (after traffic capacity memory moments).clock traffic moment := run_concat _ _ moments moment
  have given_concat : given traffic capacity memory (moments ++ [moment]) =
      given traffic capacity memory moments ++
        (after traffic capacity memory moments).received traffic moment :=
    log_concat _ _ _ moments moment
  rw [after_concat, given_concat, clock_words] at words
  generalize after traffic capacity memory moments = link at *
  generalize given traffic capacity memory moments = taken at *
  have nothing : (link.clock traffic moment).system.owed traffic = [] := owed_of_stall stall
  simp only [System.stalls, Bool.and_eq_true, beq_iff_eq] at stall
  obtain ⟨state, asked, full⟩ := stall
  have received : link.received traffic moment =
      [⟨traffic.commands link.system.cmdFifo.popped, moment.tick.statusReg⟩] :=
    coherent.received_of_interpret state
  have idle : link.system.owed traffic = [] := by
    rw [System.owed, state]
    exact coherent.inFlight_of_other (by simp [state]) (by simp [state])
  have dropped : link.stored traffic moment = [] := by rw [stored, System.stored, full, if_pos rfl]
  rw [idle, List.append_nil] at before
  rw [nothing, dropped, received, List.append_nil, List.append_nil, before,
    Interpreter.answers_concat, ← meaning, List.self_eq_append_right] at words
  have positive : link.system.control.sMemioCnt ≠ 0 := by
    simpa [readsNothing, System.readsNothing, state, asked] using now
  rw [coherent.cmdFifoQ_eq state, readsMemory_append] at asked
  rw [Interpreter.reply_readsMemory traffic.data _ ⟨_, _⟩ asked, block, List.map_eq_nil_iff,
    List.range_eq_nil] at words
  have count : link.system.meaning.count = link.system.control.sMemioCnt := by
    rw [System.meaning, state]
    rfl
  rw [count] at words
  exact positive (BitVec.eq_of_toNat_eq words)

end Kept

/-- No answer is lost at any moment if and only if the output FIFO is never full at a clock at
which `sFifoWrreq` is high or a READ of address 20 is interpreted. -/
theorem no_response_lost_iff (capacity : Nat) (traffic : Traffic) (memory : BitVec 32 → BitVec 32)
    (moments : List Moment)
    (nonzero : Along (clock traffic) (fun link moment => link.readsNothing traffic moment = false)
      (powerOn memory : Link capacity) moments) :
    (∀ seen, seen <+: moments → Answered traffic capacity memory seen) ↔
      Along (clock traffic) (fun link moment => link.overruns traffic moment = false)
        (powerOn memory : Link capacity) moments := by
  constructor
  · intro always
    induction moments using List.reverseRecOn with
    | nil => trivial
    | append_singleton moments moment inductionHypothesis =>
      obtain ⟨before, now⟩ := (along_concat _ _ _ moments moment).mp nonzero
      have earlier := inductionHypothesis before fun seen within =>
        always seen (within.trans (List.prefix_append moments [moment]))
      have last := always _ (List.prefix_refl _)
      refine (along_concat _ _ _ moments moment).mpr ⟨earlier, Bool.eq_false_iff.mpr fun high => ?_⟩
      rcases Bool.or_eq_true_iff.mp high with drop | stall
      · exact not_answered_of_drop before earlier drop last
      · exact not_answered_of_stall before earlier now stall last
  · intro along seen ⟨later, whole⟩
    subst whole
    exact answered_of_along ((along_append _ _ _ seen later).mp nonzero).1
      ((along_append _ _ _ seen later).mp along).1

/-- The count register is set to 2, and the memory is read. -/
def readBlock : Traffic where
  commands k := if k = 0 then 0x00100002 else 0x80140000
  data _ := 0

/-- Two words arrive at once, and the reader takes one word at every clock. -/
def steady (clocks : Nat) : List Moment :=
  ⟨{ Tick.quiet with cmdArriving := 2 }, 1⟩ :: List.replicate clocks ⟨.quiet, 1⟩

theorem block_answered :
    Answered readBlock 2 (fun address => address + 5) (steady 7) ∧
      (after readBlock 2 (fun address => address + 5) (steady 7)).output.delivered ++
        (after readBlock 2 (fun address => address + 5) (steady 7)).output.contents = [5, 6] := by
  constructor
  · refine (no_response_lost_iff 2 readBlock _ (steady 7) ?_).mpr ?_ _ (List.prefix_refl _) <;>
      decide
  · decide

/-- READs of address 32. -/
def readRegisters : Traffic where
  commands _ := 0x80200000
  data _ := 0

/-- Two words arrive, and the reader takes nothing. -/
def unread : List Moment :=
  ⟨{ Tick.quiet with cmdArriving := 2 }, 0⟩ :: List.replicate 5 ⟨.quiet, 0⟩

/-- Two registers are read, and one word reaches the FIFO. -/
theorem answer_dropped :
    (given readRegisters 1 0 unread).length = 2 ∧
      (after readRegisters 1 0 unread).output.contents = [registerWord 0] ∧
      ¬Answered readRegisters 1 0 unread := by
  decide +kernel

end Link

end K71GbE.Control
