/-
This file follows the data of every READ command of `sdram_buffer_fifo` to the
read run that issued the command.

The entity does not count the READ commands that are under way. The data it
pushes is told apart by `rd_reading` alone, so data that is still to come when a
run is started is pushed by the run that finds it. The tags kept here beside the
queue of the memory controller are not in the entity: they say which read start
a command belongs to, or that no read run had issued it.
-/

import K71GbE.Sdram.Ownership
import K71GbE.Sdram.ReadRun

namespace K71GbE.Sdram

variable {w : Nat} {burst : Nat}

/-! ### Tagged commands -/

/-- A read path, the number of read starts that have taken effect, and for each unanswered READ
the number of the run that issued it. -/
structure TaggedPath (w : Nat) where
  path : ReadPath w
  runs : Nat
  owners : List (Option Nat)

namespace TaggedPath

def powerOn : TaggedPath w := ⟨⟨Buffer.powerOn, [], false⟩, 0, []⟩

/-- A read start takes effect at this edge. -/
def startsRun (tagged : TaggedPath w) (input : ReadPorts w) : Bool :=
  !(tagged.path.edge input).inReset && (tagged.path.edge input).rdStartPulse

/-- A READ is accepted at this edge. -/
def asks (tagged : TaggedPath w) (input : ReadPorts w) : Bool :=
  (tagged.path.settled input).readAccepted (tagged.path.ports input)

/-- The unanswered commands are answered from the front. -/
def unanswered {Tag : Type*} (tagged : TaggedPath w) (input : ReadPorts w) (queue : List Tag) :
    List Tag :=
  if (tagged.path.ports input).appRdDataValid then queue.tail else queue

/-- The run in progress issues the command that its read FSM holds in `R2`. -/
def issuer (tagged : TaggedPath w) (input : ReadPorts w) : Option Nat :=
  if (tagged.path.settled input).rdBusy ∧
      (tagged.path.settled input).reader.readState = .R2 then
    some tagged.runs
  else none

/-- One rising edge of `CLK`. -/
def clock (burst : Nat) (tagged : TaggedPath w) (input : ReadPorts w) : TaggedPath w where
  path := tagged.path.clock burst input
  runs := if tagged.startsRun input then tagged.runs + 1 else tagged.runs
  owners := tagged.unanswered input tagged.owners ++
    (if tagged.asks input then [tagged.issuer input] else [])

/-- A word pushed at this edge answers a command of the latest read start. -/
def Attributed (tagged : TaggedPath w) (input : ReadPorts w) : Prop :=
  tagged.path.pushes input = true → tagged.owners.head? = some (some tagged.runs)

/-- No command is unanswered after this edge. -/
def Drained (tagged : TaggedPath w) (input : ReadPorts w) : Prop :=
  tagged.unanswered input tagged.path.outstanding = [] ∧ tagged.asks input = false

/-- A read start leaves no command unanswered, and during a read run a READ is accepted only from
the `R2` of its read FSM. -/
def Clean (tagged : TaggedPath w) (input : ReadPorts w) : Prop :=
  (tagged.startsRun input = true → tagged.Drained input) ∧
    ((tagged.path.settled input).rdBusy = true → tagged.asks input = true →
      (tagged.path.settled input).reader.readState = .R2)

instance (tagged : TaggedPath w) (input : ReadPorts w) : Decidable (tagged.Attributed input) :=
  inferInstanceAs (Decidable (_ → _))

instance (tagged : TaggedPath w) (input : ReadPorts w) : Decidable (tagged.Clean input) :=
  inferInstanceAs (Decidable ((_ → _ ∧ _) ∧ (_ → _ → _)))

/-! ### The invariant -/

/-- There is a tag for each command, and no tag of a run to come. -/
structure Tagged (tagged : TaggedPath w) : Prop where
  length_eq : tagged.owners.length = tagged.path.outstanding.length
  past : ∀ run, some run ∈ tagged.owners → run ≤ tagged.runs

/-- While a read run is in progress every unanswered command is its own. -/
def OwnOnly (tagged : TaggedPath w) : Prop :=
  tagged.path.buffer.core.rdBusy = true → ∀ owner ∈ tagged.owners, owner = some tagged.runs

section Step

variable {tagged : TaggedPath w} {input : ReadPorts w}

theorem mem_of_mem_unanswered {Tag : Type*} {queue : List Tag} {tag : Tag}
    (member : tag ∈ tagged.unanswered input queue) : tag ∈ queue := by
  unfold unanswered at member
  split at member
  · exact List.mem_of_mem_tail member
  · exact member

/-- A command that is unanswered after an edge was issued before it took effect. -/
theorem Tagged.past_clock (holds : tagged.Tagged) {run : Nat}
    (member : some run ∈ (tagged.clock burst input).owners) : run ≤ tagged.runs := by
  rcases List.mem_append.mp member with kept | asked
  · exact holds.past run (mem_of_mem_unanswered kept)
  · split at asked
    · rw [List.mem_singleton, issuer] at asked
      split at asked
      · exact (Option.some.inj asked).le
      · cases asked
    · cases asked

theorem Tagged.clock (holds : tagged.Tagged) (burst : Nat) (input : ReadPorts w) :
    (tagged.clock burst input).Tagged := by
  refine ⟨?_, fun run member => (holds.past_clock member).trans ?_⟩
  · have kept : (tagged.unanswered input tagged.owners).length =
        (tagged.unanswered input tagged.path.outstanding).length := by
      unfold unanswered
      split
      · rw [List.length_tail, List.length_tail, holds.length_eq]
      · exact holds.length_eq
    show (_ ++ _ : List (Option Nat)).length = (_ ++ _ : List (BitVec w)).length
    rw [List.length_append, List.length_append, kept]
    cases asked : tagged.asks input <;> rw [asks] at asked <;> simp [asked, unanswered]
  · rw [TaggedPath.clock]
    dsimp only
    split
    · exact Nat.le_succ _
    · exact le_rfl

/-- A drained path has no tags left. -/
theorem Tagged.owners_of_drained (holds : tagged.Tagged) (drained : tagged.Drained input) :
    (tagged.clock burst input).owners = [] := by
  have cleared : (tagged.clock burst input).path.outstanding = [] := by
    rw [TaggedPath.clock, ReadPath.clock]
    obtain ⟨answered, unasked⟩ := drained
    rw [unanswered] at answered
    rw [asks] at unasked
    simp only [answered, unasked, Bool.false_eq_true, if_false, List.append_nil]
  rw [← List.length_eq_zero_iff, (holds.clock burst input).length_eq, cleared, List.length_nil]

/-- Without a read start, a path that is reading after an edge was reading before it, outside
reset. -/
theorem reading_of_noStart (noStart : tagged.startsRun input = false)
    (reading : (tagged.clock burst input).path.buffer.core.rdBusy = true) :
    (tagged.path.edge input).inReset = false ∧ tagged.path.buffer.core.rdBusy = true := by
  have core : (tagged.clock burst input).path.buffer.core =
      tagged.path.buffer.core.clock burst (tagged.path.edge input) := rfl
  rw [core] at reading
  cases reset : (tagged.path.edge input).inReset with
  | true =>
    rw [Core.clock_of_reset reset] at reading
    cases reading
  | false =>
    rw [Core.clock_of_running reset] at reading
    have noPulse : (tagged.path.edge input).rdStartPulse = false := by
      simpa [startsRun, reset] using noStart
    exact ⟨rfl, (reading_before noPulse reading).1⟩

/-- A clean edge leaves a run with its own commands only. -/
theorem OwnOnly.clock (own : tagged.OwnOnly) (holds : tagged.Tagged)
    (clean : tagged.Clean input) : (tagged.clock burst input).OwnOnly := by
  intro reading owner member
  cases start : tagged.startsRun input with
  | true =>
    rw [holds.owners_of_drained (clean.1 start)] at member
    cases member
  | false =>
    obtain ⟨running, before⟩ := reading_of_noStart start reading
    have settled : tagged.path.settled input = tagged.path.buffer.core :=
      Core.settle_of_running running
    have runs : (tagged.clock burst input).runs = tagged.runs := by
      rw [TaggedPath.clock, start]
      rfl
    rw [runs]
    rcases List.mem_append.mp member with kept | asked
    · exact own before owner (mem_of_mem_unanswered kept)
    · cases accepted : tagged.asks input with
      | false =>
        rw [accepted] at asked
        cases asked
      | true =>
        have state := clean.2 (settled ▸ before) accepted
        rw [accepted, if_pos rfl, List.mem_singleton, issuer,
          if_pos ⟨settled ▸ before, state⟩] at asked
        exact asked

/-- A word is pushed outside reset, in a read run, and answers a command. -/
theorem pushes_reading (pushes : tagged.path.pushes input = true) :
    tagged.path.buffer.core.rdBusy = true ∧ tagged.path.outstanding ≠ [] := by
  have valid := (Bool.and_eq_true_iff.mp pushes).1
  refine ⟨?_, fun answered => ?_⟩
  · cases reset : (tagged.path.edge input).inReset with
    | true =>
      have settled : tagged.path.settled input = tagged.path.buffer.core.asyncReset :=
        Core.settle_of_reset reset
      have reading := (Bool.and_eq_true_iff.mp pushes).2
      rw [settled] at reading
      cases reading
    | false =>
      rw [ReadPath.pushes_of_running reset] at pushes
      exact (Bool.and_eq_true_iff.mp pushes).2
  · have invalid : (tagged.path.edge input).appRdDataValid = false :=
      ReadPath.valid_of_outstanding answered
    exact Bool.false_ne_true (invalid.symm.trans valid)

/-- While all unanswered commands are the run's own, so is the word pushed. -/
theorem OwnOnly.attributed (own : tagged.OwnOnly) (holds : tagged.Tagged) :
    tagged.Attributed input := by
  intro pushes
  obtain ⟨reading, asked⟩ := pushes_reading pushes
  cases owners : tagged.owners with
  | nil =>
    have answered : tagged.path.outstanding.length = 0 := by
      rw [← holds.length_eq, owners, List.length_nil]
    exact absurd (List.length_eq_zero_iff.mp answered) asked
  | cons owner rest =>
    rw [List.head?_cons, own reading owner (by simp [owners])]

end Step

/-! ### Attribution over a run -/

/-- What was true of the tags holds in every state reached. -/
theorem Tagged.run (burst : Nat) (inputs : List (ReadPorts w)) :
    (Clocked.run (TaggedPath.clock burst) powerOn inputs).Tagged :=
  Clocked.run_always Tagged (fun _ input holds => holds.clock burst input)
    ⟨rfl, fun _ member => by cases member⟩ inputs

/-- A read start that leaves a command unanswered: if its data comes in the next clock, it is
pushed, and answers a command of no run or of an earlier one. -/
theorem Tagged.not_attributed {tagged : TaggedPath w} {input : ReadPorts w}
    (holds : tagged.Tagged) (start : tagged.startsRun input = true)
    (left : ¬tagged.Drained input) :
    ¬(tagged.clock burst input).Attributed ⟨Ports.low, true, false, false⟩ := by
  obtain ⟨running, pulse⟩ := Bool.and_eq_true_iff.mp start
  rw [Bool.not_eq_true'] at running
  have reading : (tagged.clock burst input).path.buffer.core.status.rdReading = true := by
    show (tagged.path.buffer.core.clock burst (tagged.path.edge input)).status.rdReading = true
    rw [Core.clock_of_running running, statusProcess_eq, pulse]
    rfl
  have asked : (tagged.clock burst input).path.outstanding ≠ [] := fun cleared => by
    obtain ⟨answered, unasked⟩ := List.append_eq_nil_iff.mp cleared
    refine left ⟨answered, Bool.eq_false_iff.mpr fun accepted => ?_⟩
    rw [asks] at accepted
    rw [accepted] at unasked
    cases unasked
  have pushes : (tagged.clock burst input).path.pushes ⟨Ports.low, true, false, false⟩ = true := by
    rw [ReadPath.pushes_of_running rfl, reading, Bool.and_true]
    simpa [ReadPath.ports] using asked
  intro attributed
  have newest : (tagged.clock burst input).runs = tagged.runs + 1 := by
    rw [TaggedPath.clock, start]
    rfl
  have late := holds.past_clock (List.mem_of_head? (attributed pushes))
  omega

/-- From power-on, over every sequence of starts and resets and every schedule of the memory
controller: if every read start leaves no command unanswered, and a READ is accepted in a read run
only from its own read FSM, then every word pushed answers a command of the run in progress. A
read start that leaves a command unanswered may push data of another run in the next clock. -/
theorem read_attribution (burst : Nat) (inputs : List (ReadPorts w)) :
    (Clocked.Along (clock burst) Clean powerOn inputs →
        Clocked.Along (clock burst) Attributed powerOn inputs) ∧
      ∀ input, (Clocked.run (clock burst) powerOn inputs).startsRun input = true →
        ¬(Clocked.run (clock burst) powerOn inputs).Drained input →
        ¬Clocked.Along (clock burst) Attributed powerOn
          (inputs ++ [input, ⟨Ports.low, true, false, false⟩]) := by
  constructor
  · refine Clocked.along_of_invariant (fun tagged => tagged.Tagged ∧ tagged.OwnOnly)
      (fun tagged input holds clean => ⟨holds.1.clock burst input, holds.2.clock holds.1 clean⟩)
      (fun tagged input holds _ => holds.2.attributed holds.1)
      ⟨.run burst [], fun reading => by cases reading⟩
  · intro input start left along
    rw [Clocked.along_append] at along
    exact (Tagged.run burst inputs).not_attributed start left along.2.2.1

/-- Two reads of one burst at address 2, fifteen clocks apart. Until the second start is delivered
the memory controller answers if `prompt`. -/
def readTwice (prompt : Bool) : List (ReadPorts 4) :=
  let clock (start answers : Bool) : ReadPorts 4 :=
    ⟨{ Ports.low with appRdy := true, rdStart := start, rdAddrBegin := 2, rdAddrEnd := 4 },
      answers, true, false⟩
  clock true prompt :: List.replicate 14 (clock false prompt) ++
    clock true prompt :: List.replicate 4 (clock false prompt) ++
      List.replicate 6 (clock false true)

/-- With prompt answers each run pushes the data of its own command. -/
theorem read_attribution_prompt :
    (powerOn.path.words 2 BitVec.toNat (readTwice true)) = [2, 2] ∧
      Clocked.Along (clock 2) Attributed powerOn (readTwice true) :=
  ⟨by decide +kernel, (read_attribution 2 (readTwice true)).1 (by decide +kernel)⟩

/-- With late answers the second run pushes the data of the first one. -/
theorem read_attribution_late :
    ¬Clocked.Along (clock 2) Attributed powerOn (readTwice false) := by decide +kernel

end TaggedPath

end K71GbE.Sdram
