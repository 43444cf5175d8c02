/-
This file is about whole transactions of `i2c_master_core`: the core waits, takes
a command at some rising edge of `data_clk`, makes the transaction, and waits
again. The receiver sees both lines high in between.
-/

import K71GbE.I2c.Protocol

namespace K71GbE.I2c

open Clocked Clocked.TwoWire

/-! ### Waiting -/

namespace Core

/-- The derived clocks follow the divider. -/
structure Phased (divider : Nat) (core : Core) : Prop where
  count_lt : core.count < divider * 4
  sclClk : core.sclClk = !decide (core.count < divider * 2)
  dataClk : core.dataClk = (!decide (core.count < divider) && decide (core.count < divider * 3))

/-- The core waits for a command, at some place of the divider. -/
structure Waits (divider : Nat) (core : Core) : Prop where
  rest : core.AtRest
  phased : core.Phased divider

/-- The core after an edge at which the divider moves, and the delayed enable if `scl_clk` rises. -/
def still (divider : Nat) (core : Core) : Core :=
  { core.divide divider with
    sclEnaD := if !core.sclClk && (core.divide divider).sclClk then core.sclEna
      else core.sclEnaD }

section Waiting

variable {divider : Nat} {core : Core}

theorem Risen.phased (positive : 0 < divider) (risen : core.Risen divider) :
    core.Phased divider := by
  obtain ⟨count, sclClk, dataClk⟩ := risen
  refine ⟨by omega, ?_, ?_⟩
  · rw [sclClk, count, decide_eq_true (by omega), Bool.not_true]
  · rw [dataClk, count, decide_eq_false (by omega), decide_eq_true (by omega), Bool.not_false,
      Bool.and_true]

theorem still_phased (positive : 0 < divider) (bound : core.count < divider * 4) :
    (core.still divider).Phased divider := by
  refine ⟨?_, rfl, rfl⟩
  simp only [still, divide]
  split <;> omega

/-- `data_clk` rises once in a period. -/
theorem Phased.rises (phased : core.Phased divider) :
    (!core.dataClk && (core.divide divider).dataClk) = decide (core.count + 1 = divider) := by
  obtain ⟨bound, _, data⟩ := phased
  rw [data, Bool.eq_iff_iff]
  simp only [divide, Bool.and_eq_true, Bool.not_eq_true', Bool.and_eq_false_iff,
    Bool.not_eq_false', decide_eq_true_eq, decide_eq_false_iff_not]
  split <;> omega

theorem still_risen (positive : 0 < divider) (rising : core.count + 1 = divider) :
    (core.still divider).Risen divider := by
  have noWrap : ¬core.count = divider * 4 - 1 := by omega
  refine ⟨?_, ?_, ?_⟩
  · simp only [still, divide, noWrap, if_false]
    exact rising
  · simp only [still, divide, noWrap, if_false]
    rw [decide_eq_true (by omega), Bool.not_true]
  · simp only [still, divide, noWrap, if_false]
    rw [decide_eq_false (by omega), decide_eq_true (by omega), Bool.not_false, Bool.and_true]

theorem sample_ready (ready : core.state = .stReady) (sdaIn : Bool) :
    core.sample sdaIn = core := by
  rw [sample, ready]

/-- In `StReady` an edge of `CLK` moves the divider, and the state machine if `data_clk` rises. -/
theorem clock_ready (ready : core.state = .stReady) (command : Command) (sdaIn : Bool) :
    core.clock divider command sdaIn =
      if !core.dataClk && (core.divide divider).dataClk then (core.still divider).advance command
      else core.still divider := by
  have ready' : (core.still divider).state = .stReady := ready
  have off : (core.still divider).sample sdaIn = core.still divider := sample_ready ready' sdaIn
  have next : (if !core.sclClk && (core.divide divider).sclClk then
      { core.divide divider with sclEnaD := core.sclEna } else core.divide divider) =
      core.still divider := by
    rw [still]
    split <;> rfl
  have same : (core.still divider).dataClk = (core.divide divider).dataClk := rfl
  rw [clock]
  simp only [next, same]
  cases before : core.dataClk <;> cases after : (core.divide divider).dataClk <;>
    simp [same, after, off]

/-- Both lines are high. -/
theorem AtRest.lines (rest : core.AtRest) (slave : Bool) :
    core.scl = true ∧ core.sda slave = true ∧ core.sdaT = false := by
  refine ⟨?_, ?_, rest.driven⟩
  · rw [scl, rest.sclEnaD]
    rfl
  · rw [sda, rest.driven, if_neg Bool.false_ne_true, sdaOut, rest.state]
    exact rest.sdaInt

theorem AtRest.still (rest : core.AtRest) : (core.still divider).AtRest := by
  obtain ⟨state, busy, driven, sdaInt, sclEna, sclEnaD, bitCnt⟩ := rest
  refine ⟨state, busy, driven, sdaInt, sclEna, ?_, bitCnt⟩
  show (if _ then core.sclEna else core.sclEnaD) = false
  rw [sclEna, sclEnaD, ite_self]

theorem AtRest.advance_idle (rest : core.AtRest) {command : Command} (idle : command.ena = false) :
    core.advance command = core := by
  obtain ⟨state, busy, driven, sdaInt, sclEna, sclEnaD, bitCnt⟩ := rest
  cases core
  subst state busy driven sdaInt
  simp [advance, idle]

/-- With a command the core starts. -/
theorem AtRest.advance_ena (rest : core.AtRest) {command : Command} (asked : command.ena = true) :
    (core.advance command).AtStart command.addrRw command.dataWr := by
  obtain ⟨state, busy, driven, sdaInt, sclEna, sclEnaD, bitCnt⟩ := rest
  simp only [advance, state, asked, if_true]
  exact ⟨rfl, rfl, rfl, rfl, sclEnaD, bitCnt, rfl, rfl⟩

theorem advance_risen (risen : core.Risen divider) (ready : core.state = .stReady)
    (command : Command) : (core.advance command).Risen divider := by
  simp only [advance, ready]
  split <;> exact ⟨risen.count, risen.sclClk, risen.dataClk⟩

/-- An edge of `CLK` while the core waits: only the divider moves, or the core starts. -/
theorem Waits.clock (positive : 0 < divider) (waits : core.Waits divider) (command : Command)
    (sdaIn : Bool) :
    (core.clock divider command sdaIn).Waits divider ∨
      command.ena = true ∧ (core.clock divider command sdaIn).Risen divider ∧
        (core.clock divider command sdaIn).AtStart command.addrRw command.dataWr := by
  have rest : (core.still divider).AtRest := waits.rest.still
  have phased := still_phased positive waits.phased.count_lt
  rw [clock_ready waits.rest.state, waits.phased.rises]
  by_cases rising : core.count + 1 = divider
  · have risen := advance_risen (still_risen positive rising) rest.state command
    rw [decide_eq_true rising, if_pos rfl]
    cases asked : command.ena with
    | false =>
      rw [rest.advance_idle asked]
      exact Or.inl ⟨rest, phased⟩
    | true => exact Or.inr ⟨rfl, risen, rest.advance_ena asked⟩
  · rw [decide_eq_false rising, if_neg Bool.false_ne_true]
    exact Or.inl ⟨rest, phased⟩

end Waiting

end Core

/-- `ADDR & RW` of a request. -/
def Request.addrRw (request : Request) : BitVec 8 := request.addr ++ BitVec.ofBool request.rW

/-- The periods of a transaction, from its start to its stop. -/
def Request.periods (request : Request) : Nat :=
  if request.rW then 10 * request.count + 10 else 9 * request.count + 11

theorem Command.addrRw_bit (command : Command) : command.addrRw.getLsbD 0 = command.rW := by
  rw [addrRw, BitVec.getLsbD_append]
  simp

/-! ### The address -/

namespace Bus

variable {divider : Nat} (bus : Bus divider)

/-- From edge `n` on the flag is the disjunction of the acknowledge bits sampled since then. -/
def Flags (n early late : Nat) : Prop :=
  ∀ j, early ≤ j → j ≤ late → (bus.core (n + j)).sAckError = (bus.acks n j).any id

theorem Flags.append {n early middle count : Nat} {sampled : List Bool}
    (flags : bus.Flags n early middle) (ordered : early ≤ middle)
    (acked : bus.Acked (n + middle) count sampled) : bus.Flags n early (middle + count) := by
  intro j later inside
  rcases Nat.le_total j middle with less | more
  · exact flags j later less
  · obtain ⟨rest, rfl⟩ := Nat.exists_eq_add_of_le more
    rw [← Nat.add_assoc, acked.flags rest (by omega), flags middle ordered le_rfl, acks_add,
      List.any_append]

/-- The start and the address byte with its acknowledge slot. -/
theorem address_run (positive : 0 < divider) {n : Nat} (risen : (bus.core n).Risen divider)
    {addrRw dataTx : BitVec 8} (start : (bus.core n).AtStart addrRw dataTx)
    (pending : Option Event) :
    ∃ ack,
      Reads (.high true pending) (bus.samples n (divider * 4 * 10))
        ([.start] ++ (byteBits false addrRw ++ [.bit true ack])) .low ∧
      bus.Flags n (divider * 2) (divider * 4 * 10) ∧
      bus.acks n (divider * 4 * 10) = [ack] ∧
      (∀ j ≤ divider * 4 * 10, (bus.core (n + j)).busy = true) ∧
      (addrRw.getLsbD 0 = false → (bus.core (n + divider * 4 * 10)).AtWrite dataTx) ∧
      (addrRw.getLsbD 0 = true → (bus.core (n + divider * 4 * 10)).Takes ∧
        (bus.core (n + divider * 4 * 10)).sclEnaD = true) := by
  obtain ⟨starts, drives, command, rfl, rfl, quiet⟩ :=
    bus.start_period positive risen start pending
  have risen' := bus.risen_period positive risen
  have spans := bus.spans_of_ack positive risen'
    (fun _ => bus.busy_driven positive risen' drives)
    (by rw [bus.core_released positive risen' drives]; rfl)
  have going : (bus.core (n + divider * 4)).busy = true := by
    rcases drives.moves with ⟨_, busy⟩ | write
    · exact busy
    · rw [command] at write
      cases write
  obtain ⟨ack, reads, acked, busy, writes, takes⟩ :=
    bus.address_byte positive risen' drives command
  have place : divider * 4 * 10 = divider * 4 + divider * 4 * 9 := by ring
  have flags : bus.Flags n (divider * 2) (divider * 4) := by
    intro j later inside
    obtain ⟨flag, high⟩ := quiet j later inside
    rw [flag, high]
    rfl
  rw [Nat.add_assoc, ← place] at busy writes takes
  refine ⟨ack, ?_, ?_, ?_, fun j inside => ?_, writes, takes⟩
  · rw [place, samples_add]
    exact starts.append reads
  · rw [place]
    exact flags.append bus (by omega) acked
  · rw [place, acks_add, acked.acks_eq, (quiet _ (by omega) le_rfl).2]
    rfl
  · rcases Nat.lt_or_ge j (divider * 4) with first | later
    · rw [bus.busy_within positive risen first]
      exact start.busy
    rcases Nat.lt_or_eq_of_le inside with less | rfl
    · rw [show n + j = n + divider * 4 + (j - divider * 4) by omega]
      rcases Nat.lt_or_ge (j - divider * 4) (divider * 4) with bit | others
      · rw [spans.first _ bit, going]
      · exact spans.others _ others (by omega)
    · exact busy

/-! ### The whole transaction -/

/-- While `BUSY` does not rise the core goes on waiting. -/
theorem waits_until (positive : 0 < divider) {start first n : Nat}
    (waits : (bus.core start).Waits divider)
    (quiet : ∀ n, start ≤ n → n < first → bus.rise n = false) (later : start ≤ n)
    (earlier : n ≤ first) : (bus.core n).Waits divider := by
  induction n, later using Nat.le_induction with
  | base => exact waits
  | succ n later inductionHypothesis =>
    have here := inductionHypothesis (Nat.le_of_succ_le earlier)
    have noRise := quiet n later earlier
    rcases here.clock positive (bus.command n) ((bus.core n).sda (bus.slave n)) with
      stays | ⟨_, _, starts⟩
    · rwa [bus.clocked]
    · rw [rise, here.rest.busy, bus.clocked, starts.busy] at noRise
      cases noRise

theorem wire_waits {n : Nat} (waits : (bus.core n).Waits divider) :
    bus.wire n = ⟨true, true, false⟩ := by
  obtain ⟨scl, sda, driven⟩ := waits.rest.lines (bus.slave n)
  rw [wire, scl, sda, driven]

theorem samples_waits {n : Nat} (waits : (bus.core n).Waits divider) :
    bus.samples n 1 = List.replicate 1 ⟨true, true, false⟩ := by
  refine bus.samples_same fun j early => ?_
  obtain rfl := Nat.lt_one_iff.mp early
  exact bus.wire_waits waits

/-- A receiver reads nothing of a core that waits. -/
theorem reads_idle (positive : 0 < divider) {start first : Nat}
    (waits : (bus.core start).Waits divider)
    (quiet : ∀ n, start ≤ n → n < first → bus.rise n = false) (later : start ≤ first)
    (pending : Option Event) :
    Reads (.high true pending) (bus.samples start (first + 1 - start)) [] (.high true pending) := by
  have same : bus.samples start (first + 1 - start) =
      List.replicate (first + 1 - start) ⟨true, true, false⟩ := by
    refine bus.samples_same fun j inside => ?_
    exact bus.wire_waits (bus.waits_until positive waits quiet (by omega) (by omega))
  rw [same]
  exact reads_same _ _ _ _

/-- What a transaction does between edge `start`, where the core waits, edge `first`, where `BUSY`
rises, and its end. -/
structure Carries (request : Request) (start first : Nat) (before : Receiver)
    (transcript : Transcript) : Prop where
  length : transcript.slots.length = request.count
  reads : Reads before (bus.samples start (first + 1 - start + divider * 4 * request.periods))
    (transcript.events request.addrRw request.rW) (.high true none)
  flags : bus.Flags (first + 1) (divider * 2) (divider * 4 * request.periods)
  acks : bus.acks (first + 1) (divider * 4 * request.periods) =
    transcript.ack :: (if request.rW then [] else transcript.slots.map Prod.snd)
  written : request.rW = false →
    transcript.slots.map Prod.fst = (List.range request.count).map request.values
  returned : request.rW = true →
    bus.reports (first + 1) (divider * 4 * request.periods) = transcript.slots.map Prod.fst ∧
      transcript.slots.map Prod.snd = List.replicate (request.count - 1) false ++ [true]
  finished : bus.Finished request first (1 + divider * 4 * request.periods)
  waits : (bus.core (first + 1 + divider * 4 * request.periods)).Waits divider

/-- The start and the address byte of a transaction are over. -/
structure Addressed (request : Request) (start first : Nat) (before : Receiver) (ack : Bool) :
    Prop where
  risen : (bus.core (first + 1)).Risen divider
  reads : Reads before (bus.samples start (first + 1 - start + divider * 4 * 10))
    ([.start] ++ (byteBits false request.addrRw ++ [.bit true ack])) .low
  flags : bus.Flags (first + 1) (divider * 2) (divider * 4 * 10)
  acks : bus.acks (first + 1) (divider * 4 * 10) = [ack]
  reports : bus.reports (first + 1) (divider * 4 * 10) = []
  place : bus.AtByte request first (1 + divider * 4 * 10) 1
  writes : request.rW = false →
    (bus.core (first + 1 + divider * 4 * 10)).AtWrite (request.values 0)
  takes : request.rW = true → (bus.core (first + 1 + divider * 4 * 10)).Takes ∧
    (bus.core (first + 1 + divider * 4 * 10)).sclEnaD = true

section Carrying

variable (positive : 0 < divider) {request : Request} (anyByte : 0 < request.count)
  {start first : Nat}

include positive anyByte in
/-- The edge at which `BUSY` rises starts a transaction. -/
theorem exists_addressed (waits : (bus.core start).Waits divider) (later : start ≤ first)
    (quiet : ∀ n, start ≤ n → n < first → bus.rise n = false) (rises : bus.rise first = true)
    (follows : bus.Follows request first) (pending : Option Event) :
    ∃ ack, bus.Addressed request start first (.high true pending) ack := by
  have here := bus.waits_until positive waits quiet later le_rfl
  have settled : bus.Settled first 0 := fun i early => absurd early (Nat.not_lt_zero i)
  have asked : request.Asks 0 (bus.command first) :=
    follows.asks 0 settled fun i early => absurd early (Nat.not_lt_zero i)
  obtain ⟨risen, begins⟩ : (bus.core (first + 1)).Risen divider ∧
      (bus.core (first + 1)).AtStart (bus.command first).addrRw (bus.command first).dataWr := by
    rcases here.clock positive (bus.command first) ((bus.core first).sda (bus.slave first)) with
      stays | ⟨_, moved⟩
    · rw [rise, bus.clocked, stays.rest.busy, Bool.and_false] at rises
      cases rises
    · rwa [bus.clocked]
  obtain ⟨direction, value⟩ := asked.2 anyByte
  have addrRw : (bus.command first).addrRw = request.addrRw := by
    rw [Command.addrRw, follows.addr, direction]
    rfl
  have bit : request.addrRw.getLsbD 0 = request.rW := by
    rw [← addrRw, Command.addrRw_bit, direction]
  obtain ⟨ack, opening, flags, acks, busy, writes, takes⟩ :=
    bus.address_run positive risen begins pending
  rw [addrRw] at opening
  rw [addrRw, bit] at writes takes
  have idle := bus.reads_idle positive waits quiet later pending
  have place : first + 1 + divider * 4 * 10 = first + (1 + divider * 4 * 10) := by omega
  have counted : bus.rises first (1 + divider * 4 * 10) +
      (!(bus.core (first + (1 + divider * 4 * 10))).busy).toNat = 1 := by
    rw [rises_add, rises_one, rises,
      bus.rises_of_busy fun j inside => busy j inside.le, ← place, busy _ le_rfl]
    rfl
  have paced : bus.Paced request first (1 + divider * 4 * 10) := by
    have begun : bus.Paced request first 1 := by
      intro i early _
      obtain rfl := Nat.lt_one_iff.mp early
      exact ⟨anyByte, settled⟩
    exact begun.add_busy fun j inside => busy j inside.le
  refine ⟨ack, risen, ?_, flags, acks, (bus.edges_same _ _ busy).2,
    ⟨paced, counted, fun low => ?_⟩, fun write => value write ▸ writes write, takes⟩
  · rw [samples_add, show start + (first + 1 - start) = first + 1 by omega]
    exact idle.append opening
  · rw [← place, busy _ le_rfl] at low
    cases low

variable {before : Receiver} {ack : Bool} {bus}
  (addressed : bus.Addressed request start first before ack)

include addressed

/-- The bytes and the stop complete the frame. -/
theorem Addressed.frame {rest : Nat} {slots : List (BitVec 8 × Bool)} {rW : Bool}
    (later : start ≤ first) (kind : request.rW = rW)
    (reads : Reads .low (bus.samples (first + 1 + divider * 4 * 10) (divider * 4 * rest))
      (slots.flatMap (slotEvents rW) ++ [.stop]) (.high true none)) :
    Reads before (bus.samples start (first + 1 - start + divider * 4 * (10 + rest)))
      (Transcript.events ⟨ack, slots⟩ request.addrRw request.rW) (.high true none) := by
  have joined : start + (first + 1 - start + divider * 4 * 10) =
      first + 1 + divider * 4 * 10 := by omega
  rw [Nat.mul_add, ← Nat.add_assoc, samples_add, kind, joined]
  exact addressed.reads.append reads

/-- The bytes add their acknowledge bits to that of the address. -/
theorem Addressed.acked {rest : Nat} {sampled : List Bool}
    (acked : bus.Acked (first + 1 + divider * 4 * 10) (divider * 4 * rest) sampled) :
    bus.Flags (first + 1) (divider * 2) (divider * 4 * (10 + rest)) ∧
      bus.acks (first + 1) (divider * 4 * (10 + rest)) = ack :: sampled := by
  rw [Nat.mul_add]
  refine ⟨addressed.flags.append bus (by omega) acked, ?_⟩
  rw [acks_add, addressed.acks, acked.acks_eq, List.singleton_append]

include positive anyByte

theorem Addressed.carries_write (later : start ≤ first) (follows : bus.Follows request first)
    (direction : request.rW = false) :
    ∃ transcript, bus.Carries request start first before transcript := by
  have stage := addressed.writes direction
  have place : first + 1 + divider * 4 * 10 = first + (1 + divider * 4 * 10) := by omega
  have risen := bus.risen_periods positive addressed.risen 10
  have left : 1 + (request.count - 1) = request.count := by omega
  have periods : request.periods = 10 + (9 * (request.count - 1) + 10) := by
    rw [Request.periods, direction, if_neg Bool.false_ne_true]
    omega
  rw [place] at stage risen
  obtain ⟨slots, bytes, reads, acked, finished, rest⟩ :=
    bus.write_run positive follows.asks direction _ left risen stage addressed.place
  rw [← place] at reads acked rest
  obtain ⟨flags, acks⟩ := addressed.acked acked
  have values : slots.map Prod.fst = (List.range request.count).map request.values := by
    rw [bytes, ← Request.rest_of_lt anyByte, Request.rest, Nat.sub_zero]
    exact List.map_congr_left fun i _ => congrArg request.values (Nat.zero_add i)
  have ended := bus.risen_periods positive addressed.risen request.periods
  refine ⟨⟨ack, slots⟩, ?_, ?_, ?_, ?_, fun _ => values, ?_, ?_, ⟨?_, ended.phased positive⟩⟩
  · simpa using congrArg List.length values
  · rw [periods]
    exact addressed.frame later direction reads
  · rwa [periods]
  · rw [periods, acks, direction, if_neg Bool.false_ne_true]
  · intro read
    rw [direction] at read
    cases read
  · rw [periods, Nat.mul_add, ← Nat.add_assoc]
    exact finished
  · rw [periods, Nat.mul_add, ← Nat.add_assoc]
    exact rest

theorem Addressed.carries_read (later : start ≤ first) (follows : bus.Follows request first)
    (direction : request.rW = true) :
    ∃ transcript, bus.Carries request start first before transcript := by
  obtain ⟨stage, enabled⟩ := addressed.takes direction
  have place : first + 1 + divider * 4 * 10 = first + (1 + divider * 4 * 10) := by omega
  have risen := bus.risen_periods positive addressed.risen 10
  have left : 1 + (request.count - 1) = request.count := by omega
  have periods : request.periods = 10 + (10 * (request.count - 1) + 10) := by
    rw [Request.periods, direction, if_pos rfl]
    omega
  have starts :=
    bus.reads_bit positive risen (stage.plain (fun _ => false) 0) enabled stage.sclEna
  rw [stage.released, place] at starts
  rw [place] at stage risen
  obtain ⟨slots, answers, reads, told, acked, finished, rest⟩ :=
    bus.read_run positive follows.asks direction _ left risen stage addressed.place starts
  have joined : bus.samples (first + (1 + divider * 4 * 10)) (divider * 4) ++
      bus.samples (first + (1 + divider * 4 * 10) + divider * 4)
        (divider * 4 * (10 * (request.count - 1) + 9)) =
      bus.samples (first + 1 + divider * 4 * 10)
        (divider * 4 * (10 * (request.count - 1) + 10)) := by
    rw [place, ← samples_add]
    congr 1
    ring
  rw [joined] at reads
  rw [← place] at told acked rest
  obtain ⟨flags, acks⟩ := addressed.acked acked
  have ended := bus.risen_periods positive addressed.risen request.periods
  refine ⟨⟨ack, slots⟩, ?_, ?_, ?_, ?_, ?_, fun _ => ⟨?_, answers⟩, ?_,
    ⟨?_, ended.phased positive⟩⟩
  · have size := congrArg List.length answers
    rw [List.length_map, List.length_append, List.length_replicate, List.length_singleton] at size
    exact size.trans (by omega)
  · rw [periods]
    exact addressed.frame later direction reads
  · rwa [periods]
  · rw [periods, acks, direction, if_pos rfl]
  · intro write
    rw [direction] at write
    cases write
  · rw [periods, Nat.mul_add, reports_add, addressed.reports, told, List.nil_append]
  · rw [periods, Nat.mul_add, ← Nat.add_assoc]
    exact finished
  · rw [periods, Nat.mul_add, ← Nat.add_assoc]
    exact rest

/-- From the address on, a transaction of either direction is carried. -/
theorem Addressed.exists_carries (later : start ≤ first) (follows : bus.Follows request first) :
    ∃ transcript, bus.Carries request start first before transcript := by
  cases direction : request.rW with
  | false => exact addressed.carries_write positive anyByte later follows direction
  | true => exact addressed.carries_read positive anyByte later follows direction

end Carrying

/-- Every transaction appears on the bus as one frame with as many bytes as its commands ask for:
the bytes written are the values of the commands, the bytes read come back as `DATA_RD` and are
acknowledged but for the last one, and the error flag collects the acknowledge bits. -/
theorem transaction_on_bus (positive : 0 < divider) (request : Request)
    (anyByte : 0 < request.count) {start first : Nat} (waits : (bus.core start).Waits divider)
    (later : start ≤ first)
    (quiet : ∀ n, start ≤ n → n < first → bus.rise n = false) (rises : bus.rise first = true)
    (follows : bus.Follows request first) (pending : Option Event) :
    ∃ transcript, bus.Carries request start first (.high true pending) transcript := by
  obtain ⟨ack, addressed⟩ :=
    bus.exists_addressed positive anyByte waits later quiet rises follows pending
  exact addressed.exists_carries positive anyByte later follows

/-! Two bytes read with the fastest divider. The side that commands counts the rising edges of
`BUSY` and asks until the second one; the other side changes its level while the clock line is
low. -/

section Pair

/-- The command after so many rising edges of `BUSY`. -/
def pairCommand (seen : Nat) : Command := ⟨seen < 2, 0x50, true, BitVec.ofNat 8 seen⟩

/-- The three sides before an edge. -/
structure PairState where
  core : Core
  seen : Nat
  slave : Bool

def pairState : Nat → PairState
  | 0 => ⟨⟨0, false, false, false, .stReady, false, false, true, false, 7, 0, 0, 0, 0, false⟩, 0,
      false⟩
  | n + 1 =>
    let ⟨core, seen, slave⟩ := pairState n
    let next := core.clock 1 (pairCommand seen) (core.sda slave)
    ⟨next, seen + (!core.busy && next.busy).toNat, if next.scl then slave else n % 3 == 1⟩

def pair : Bus 1 where
  core n := (pairState n).core
  command n := pairCommand (pairState n).seen
  slave n := (pairState n).slave
  clocked _ := rfl
  steady _ high _ := if_pos high

def pairRequest : Request := ⟨0x50, true, 2, fun _ => 0⟩

theorem pair_seen (n : Nat) : (pairState n).seen = pair.rises 0 n := by
  induction n with
  | zero => rfl
  | succ n inductionHypothesis =>
    have last : pair.rises n 1 = (pair.rise n).toNat := by
      cases rise : pair.rise n <;> simp [rises, rise]
    rw [rises_add, Nat.zero_add, last, ← inductionHypothesis]
    rfl

theorem pair_follows : pair.Follows pairRequest 0 := by
  refine ⟨rfl, fun j _ _ => ?_⟩
  rw [← pair_seen, Nat.zero_add]
  exact ⟨rfl, fun _ => ⟨rfl, fun write => Bool.noConfusion write⟩⟩

theorem pair_on_bus :
    ∃ transcript, pair.Carries pairRequest 0 0 (.high true none) transcript :=
  pair.transaction_on_bus (by decide) pairRequest (by decide)
    ⟨⟨rfl, rfl, rfl, rfl, rfl, rfl, rfl⟩, by decide, rfl, rfl⟩ le_rfl
    (fun n _ early => absurd early (Nat.not_lt_zero n)) (by decide) pair_follows none

end Pair

end Bus

end K71GbE.I2c
