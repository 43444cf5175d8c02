/-
This file follows a whole transaction of `i2c_master_core`, from the rising edge
of `BUSY` that starts it to the falling edge that ends it.

The side that commands the core counts the rising edges of `BUSY`. It changes the
command only within one period of the clock line after such an edge; otherwise
the command asks for as many bytes as the request has, one more for every edge.
-/

import K71GbE.I2c.Transfer

namespace K71GbE.I2c

open Clocked Clocked.TwoWire

/-! ### What is asked for and what is seen -/

/-- A transaction of `count` bytes; the values are those of a write. -/
structure Request where
  addr : BitVec 7
  rW : Bool
  count : Nat
  values : Nat → BitVec 8

/-- The command after so many rising edges of `BUSY`. -/
def Request.Asks (request : Request) (seen : Nat) (command : Command) : Prop :=
  command.ena = decide (seen < request.count) ∧
    (seen < request.count → command.rW = request.rW ∧
      (request.rW = false → command.dataWr = request.values seen))

/-- The values that are still to be written. -/
def Request.rest (request : Request) (seen : Nat) : List (BitVec 8) :=
  (List.range (request.count - seen)).map fun i => request.values (seen + i)

theorem Request.rest_of_lt {request : Request} {seen : Nat} (more : seen < request.count) :
    request.rest seen = request.values seen :: request.rest (seen + 1) := by
  have count : request.count - seen = request.count - (seen + 1) + 1 := by omega
  rw [rest, count, List.range_succ_eq_map, List.map_cons, List.map_map, rest]
  refine congrArg (_ :: ·) (List.map_congr_left fun i _ => ?_)
  exact congrArg request.values (by omega)

theorem Request.rest_of_le {request : Request} {seen : Nat} (sent : request.count ≤ seen) :
    request.rest seen = [] := by
  rw [rest, Nat.sub_eq_zero_of_le sent]
  rfl

/-- The bytes of a transaction with their acknowledge bits, and that of the address. -/
structure Transcript where
  ack : Bool
  slots : List (BitVec 8 × Bool)

/-- A byte and its acknowledge bit on the bus: one of them is left to the other side. -/
def slotEvents (rW : Bool) (slot : BitVec 8 × Bool) : List Event :=
  byteBits rW slot.1 ++ [.bit (!rW) slot.2]

/-- What a receiver reads of a transaction. -/
def Transcript.events (transcript : Transcript) (addrRw : BitVec 8) (rW : Bool) : List Event :=
  [.start] ++ (byteBits false addrRw ++ [.bit true transcript.ack]) ++
    (transcript.slots.flatMap (slotEvents rW) ++ [.stop])

namespace Core

theorem sample_dataRd (core : Core) (sdaIn : Bool) : (core.sample sdaIn).dataRd = core.dataRd := by
  unfold sample
  cases core.state <;> rfl

theorem advance_dataRd {core : Core} {command : Command}
    (low : (core.advance command).busy = false) :
    (core.advance command).dataRd = core.dataRd := by
  unfold advance at low ⊢
  cases at_ : core.state <;> simp only [at_] at low ⊢ <;> split_ifs at low ⊢ <;>
    rfl

theorem clock_dataRd {divider : Nat} {core : Core} {command : Command} {sdaIn : Bool}
    (low : (core.clock divider command sdaIn).busy = false) :
    (core.clock divider command sdaIn).dataRd = core.dataRd := by
  have sampled (falls : Bool) (next : Core) :
      (if falls then next.sample sdaIn else next).busy = next.busy ∧
        (if falls then next.sample sdaIn else next).dataRd = next.dataRd := by
    cases falls
    · exact ⟨rfl, rfl⟩
    · exact ⟨sample_busy _ _, sample_dataRd _ _⟩
  have moved (rises : Bool) (next : Core)
      (low : (if rises then next.advance command else next).busy = false) :
      (if rises then next.advance command else next).dataRd = next.dataRd := by
    cases rises
    · rfl
    · exact advance_dataRd low
  rw [clock, (sampled _ _).1] at low
  rw [clock, (sampled _ _).2, moved _ _ low]
  split <;> rfl

end Core

namespace Bus

variable {divider n : Nat} (bus : Bus divider)

/-- `BUSY` rises at edge `n`. -/
def rise (n : Nat) : Bool := !(bus.core n).busy && (bus.core (n + 1)).busy

/-- The rising edges of `BUSY` among `count` edges. -/
def rises (n count : Nat) : Nat := (List.range count).countP fun j => bus.rise (n + j)

/-- `DATA_RD` whenever `BUSY` falls, for `count` edges. -/
def reports (n count : Nat) : List (BitVec 8) :=
  (List.range count).flatMap fun j =>
    if (bus.core (n + j)).busy && !(bus.core (n + j + 1)).busy then
      [(bus.core (n + j + 1)).dataRd]
    else []

/-- The last rising edge of `BUSY` since edge `first` is more than one period ago. -/
def Settled (first j : Nat) : Prop :=
  ∀ i < j, bus.rise (first + i) = true → i + divider * 4 < j

/-- Since edge `first`, whenever `BUSY` was low, another byte was still to come and the last rising
edge was more than one period ago. -/
def Paced (request : Request) (first j : Nat) : Prop :=
  ∀ i < j, (bus.core (first + i)).busy = false →
    bus.rises first i < request.count ∧ bus.Settled first i

/-- The transaction that starts at edge `first` has all its bytes behind it. -/
structure Finished (request : Request) (first j : Nat) : Prop where
  paced : bus.Paced request first j
  rises_eq : bus.rises first j = request.count
  settled : bus.Settled first j

/-- From edge `first` on the commands are those of the request, until `BUSY` falls for the last
time. -/
structure Follows (request : Request) (first : Nat) : Prop where
  addr : (bus.command first).addr = request.addr
  asks : ∀ j, bus.Settled first j → bus.Paced request first j →
    request.Asks (bus.rises first j) (bus.command (first + j))

section Edges

theorem rises_add (n first second : Nat) :
    bus.rises n (first + second) = bus.rises n first + bus.rises (n + first) second := by
  simp only [rises, List.range_add, List.countP_append, List.countP_map, Function.comp_def,
    Nat.add_assoc]

theorem reports_add (n first second : Nat) :
    bus.reports n (first + second) = bus.reports n first ++ bus.reports (n + first) second := by
  simp only [reports, List.range_add, List.flatMap_append, List.flatMap_map, Nat.add_assoc]

/-- Without a change of `BUSY` there is no edge. -/
theorem edges_same (n count : Nat) {busy : Bool}
    (same : ∀ j ≤ count, (bus.core (n + j)).busy = busy) :
    bus.rises n count = 0 ∧ bus.reports n count = [] := by
  constructor
  · refine List.countP_eq_zero.mpr fun j member => ?_
    have inside := List.mem_range.mp member
    have next : (bus.core (n + j + 1)).busy = busy := same (j + 1) inside
    rw [rise, same j inside.le, next]
    cases busy <;> decide
  · refine List.flatMap_eq_nil_iff.mpr fun j member => ?_
    have inside := List.mem_range.mp member
    have next : (bus.core (n + j + 1)).busy = busy := same (j + 1) inside
    rw [same j inside.le, next]
    cases busy <;> rfl

theorem rises_of_busy {count : Nat} (busy : ∀ j < count, (bus.core (n + j)).busy = true) :
    bus.rises n count = 0 := by
  refine List.countP_eq_zero.mpr fun j member => ?_
  rw [rise, busy j (List.mem_range.mp member)]
  exact Bool.false_ne_true

theorem rises_le (n : Nat) {few many : Nat} (le : few ≤ many) :
    bus.rises n few ≤ bus.rises n many := by
  obtain ⟨rest, rfl⟩ := Nat.exists_eq_add_of_le le
  rw [rises_add]
  exact Nat.le_add_right _ _

theorem Settled.add {first p q : Nat} {bus : Bus divider} (settled : bus.Settled first p)
    (noRise : bus.rises (first + p) q = 0) : bus.Settled first (p + q) := by
  intro i earlier edge
  rcases Nat.lt_or_ge i p with before | later
  · exact Nat.lt_add_right q (settled i before edge)
  · have quiet := List.countP_eq_zero.mp noRise (i - p) (List.mem_range.mpr (by omega))
    rw [show first + p + (i - p) = first + i by omega] at quiet
    exact absurd edge quiet

theorem Paced.add_busy {request : Request} {first p q : Nat} {bus : Bus divider}
    (paced : bus.Paced request first p)
    (busy : ∀ j < q, (bus.core (first + p + j)).busy = true) :
    bus.Paced request first (p + q) := by
  intro i earlier low
  rcases Nat.lt_or_ge i p with before | later
  · exact paced i before low
  · have high := busy (i - p) (by omega)
    rw [show first + p + (i - p) = first + i by omega, low] at high
    cases high

theorem rises_one (n : Nat) : bus.rises n 1 = (bus.rise n).toNat := by
  have single : bus.rises n 1 = if bus.rise n then 1 else 0 := by
    simp [rises, List.range_succ, List.countP_cons]
  rw [single]
  cases bus.rise n <;> rfl

/-- As long as another byte is to come whenever `BUSY` is low, there is not one edge too many. -/
theorem Paced.rises_le {request : Request} {first j : Nat} {bus : Bus divider}
    (paced : bus.Paced request first j) : bus.rises first j ≤ request.count := by
  induction j with
  | zero => exact Nat.zero_le _
  | succ j inductionHypothesis =>
    have before := inductionHypothesis fun i earlier => paced i (Nat.lt_succ_of_lt earlier)
    rw [rises_add, rises_one]
    cases edge : bus.rise (first + j) with
    | false => exact before
    | true =>
      have low : (bus.core (first + j)).busy = false := by
        rw [rise, Bool.and_eq_true, Bool.not_eq_true'] at edge
        exact edge.1
      exact (paced j (Nat.lt_succ_self j) low).1

theorem reports_one (n : Nat) : bus.reports n 1 =
    if (bus.core n).busy && !(bus.core (n + 1)).busy then [(bus.core (n + 1)).dataRd]
    else [] := by
  simp [reports, List.range_succ]

/-- `DATA_RD` changes only when `BUSY` is high. -/
theorem dataRd_same {n : Nat} (low : (bus.core (n + 1)).busy = false) :
    (bus.core (n + 1)).dataRd = (bus.core n).dataRd := by
  rw [bus.clocked] at low ⊢
  exact Core.clock_dataRd low

/-- Every rising edge of `BUSY` is followed by a falling one, unless `BUSY` is high. -/
theorem reports_length {first : Nat} (begins : (bus.core first).busy = false) (j : Nat) :
    (bus.reports first j).length + (bus.core (first + j)).busy.toNat = bus.rises first j := by
  induction j with
  | zero =>
    rw [Nat.add_zero, begins]
    rfl
  | succ j inductionHypothesis =>
    rw [reports_add, rises_add, ← inductionHypothesis, rises_one, reports_one, List.length_append,
      rise, ← Nat.add_assoc]
    cases (bus.core (first + j)).busy <;> cases (bus.core (first + j + 1)).busy <;> rfl

/-- While `BUSY` is low, `DATA_RD` is the last byte told. -/
theorem reports_last {first : Nat} (j : Nat) (low : (bus.core (first + j)).busy = false) :
    ∀ byte ∈ (bus.reports first j).getLast?, (bus.core (first + j)).dataRd = byte := by
  induction j with
  | zero => exact fun byte member => absurd member (by simp [reports])
  | succ j inductionHypothesis =>
    intro byte last
    rw [← Nat.add_assoc] at low ⊢
    rw [reports_add, reports_one, low, Bool.not_false, Bool.and_true] at last
    cases before : (bus.core (first + j)).busy with
    | false =>
      rw [before, if_neg Bool.false_ne_true, List.append_nil] at last
      rw [bus.dataRd_same low]
      exact inductionHypothesis before byte last
    | true =>
      rw [before, if_pos rfl, List.getLast?_concat, Option.mem_some] at last
      exact last

end Edges

/-- `BUSY` over a byte: it keeps its level in the first period and is high in the others. -/
structure Spans (n : Nat) : Prop where
  first : ∀ j < divider * 4, (bus.core (n + j)).busy = (bus.core n).busy
  others : ∀ j, divider * 4 ≤ j → j < divider * 4 * 9 → (bus.core (n + j)).busy = true

section Spans

variable {first p : Nat} (positive : 0 < divider) (spans : bus.Spans (first + p))

include spans

/-- Two periods into a byte the last rising edge is long ago. -/
theorem Spans.settled {q : Nat} (later : divider * 4 * 2 ≤ q) (inside : q ≤ divider * 4 * 9) :
    bus.Settled first (p + q) := by
  intro i earlier edge
  refine Nat.lt_of_not_le fun near => ?_
  have high := spans.others (i - p) (by omega) (by omega)
  rw [show first + p + (i - p) = first + i by omega] at high
  rw [rise, high] at edge
  cases edge

include positive

/-- In a byte `BUSY` rises if it was low before. -/
theorem Spans.rises_eq {q : Nat} (later : divider * 4 ≤ q) (inside : q ≤ divider * 4 * 9) :
    bus.rises (first + p) q = (!(bus.core (first + p)).busy).toNat := by
  obtain ⟨rest, rfl⟩ := Nat.exists_eq_add_of_le later
  obtain ⟨quiet, _⟩ := bus.edges_same (first + p) (divider * 4 - 1)
    fun j small => spans.first j (by omega)
  have high : bus.rises (first + p + divider * 4) rest = 0 := by
    refine bus.rises_of_busy fun j small => ?_
    rw [Nat.add_assoc]
    exact spans.others (divider * 4 + j) (by omega) (by omega)
  have before := spans.first (divider * 4 - 1) (by omega)
  have after := spans.others (divider * 4) le_rfl (by omega)
  have edge : bus.rise (first + p + (divider * 4 - 1)) = !(bus.core (first + p)).busy := by
    rw [rise, before, show first + p + (divider * 4 - 1) + 1 = first + p + divider * 4 by omega,
      after, Bool.and_true]
  have split : divider * 4 + rest = divider * 4 - 1 + 1 + rest := by omega
  rw [split, rises_add, rises_add, quiet, rises_one, edge,
    show first + p + (divider * 4 - 1 + 1) = first + p + divider * 4 by omega, high]
  omega

/-- In a byte `BUSY` falls at the end or not at all. -/
theorem Spans.reports_eq :
    bus.reports (first + p) (divider * 4 * 9) =
      if (bus.core (first + p + divider * 4 * 9)).busy then []
      else [(bus.core (first + p + divider * 4 * 9)).dataRd] := by
  obtain ⟨_, quiet⟩ := bus.edges_same (first + p) (divider * 4 - 1)
    fun j small => spans.first j (by omega)
  obtain ⟨_, high⟩ := bus.edges_same (first + p + divider * 4) (divider * 4 * 8 - 1)
    fun j small => by
      rw [Nat.add_assoc]
      exact spans.others (divider * 4 + j) (by omega) (by omega)
  have after := spans.others (divider * 4) le_rfl (by omega)
  have last := spans.others (divider * 4 * 9 - 1) (by omega) (by omega)
  have rising : bus.reports (first + p + (divider * 4 - 1)) 1 = [] := by
    rw [reports_one, show first + p + (divider * 4 - 1) + 1 = first + p + divider * 4 by omega,
      after, Bool.not_true, Bool.and_false]
    rfl
  have split : divider * 4 * 9 = divider * 4 - 1 + 1 + (divider * 4 * 8 - 1) + 1 := by omega
  have ending : first + p + (divider * 4 - 1 + 1 + (divider * 4 * 8 - 1)) =
      first + p + (divider * 4 * 9 - 1) := by omega
  conv_lhs => rw [split]
  rw [reports_add, reports_add, reports_add, quiet, rising,
    show first + p + (divider * 4 - 1 + 1) = first + p + divider * 4 by omega, high, ending,
    reports_one, last,
    show first + p + (divider * 4 * 9 - 1) + 1 = first + p + divider * 4 * 9 by omega]
  cases (bus.core (first + p + divider * 4 * 9)).busy <;> rfl

end Spans

section Bytes

variable (positive : 0 < divider) (risen : (bus.core n).Risen divider)

include positive risen

theorem spans_of_ack (high : ∀ j, divider * 4 ≤ j → j < divider * 4 * 8 →
    (bus.core (n + j)).busy = true) (ack : (bus.core (n + divider * 4 * 8)).busy = true) :
    bus.Spans n := by
  refine ⟨fun j inside => bus.busy_within positive risen inside, fun j later earlier => ?_⟩
  rcases Nat.lt_or_ge j (divider * 4 * 8) with early | late
  · exact high j later early
  · have slot := bus.busy_within positive (bus.risen_periods positive risen 8)
      (j := j - divider * 4 * 8) (by omega)
    rw [show n + divider * 4 * 8 + (j - divider * 4 * 8) = n + j by omega] at slot
    rw [slot, ack]

theorem spans_write {byte : BitVec 8} (write : (bus.core n).AtWrite byte) :
    bus.Spans n := by
  refine bus.spans_of_ack positive risen
    (fun _ => bus.busy_driven positive risen write.drives) ?_
  rw [bus.core_released positive risen write.drives]
  rfl

theorem spans_read (takes : (bus.core n).Takes) : bus.Spans n :=
  bus.spans_of_ack positive risen (fun _ => bus.busy_taken positive risen takes)
    (bus.read_byte positive risen takes).busy

theorem busy_wait {byte : BitVec 8} (wait : (bus.core n).AtWait byte) :
    ∀ j ≤ divider * 4, (bus.core (n + j)).busy = false := by
  intro j inside
  rcases Nat.lt_or_eq_of_le inside with less | rfl
  · rw [bus.busy_within positive risen less, wait.busy]
  · exact (bus.wait_period positive risen wait).2.1

end Bytes

/-- `BUSY` changes at the end of a period or not at all. -/
theorem reports_period (positive : 0 < divider) (risen : (bus.core n).Risen divider) :
    bus.reports n (divider * 4) =
      if (bus.core n).busy && !(bus.core (n + divider * 4)).busy then
        [(bus.core (n + divider * 4)).dataRd]
      else [] := by
  obtain ⟨_, quiet⟩ := bus.edges_same n (divider * 4 - 1)
    fun j small => bus.busy_within positive risen (by omega)
  have last := bus.busy_within positive risen (j := divider * 4 - 1) (by omega)
  have split : divider * 4 = divider * 4 - 1 + 1 := by omega
  conv_lhs => rw [split]
  rw [reports_add, quiet, reports_one, last,
    show n + (divider * 4 - 1) + 1 = n + divider * 4 by omega, List.nil_append]

/-- The place of a byte in the transaction: with its first period `seen` rising edges have come. -/
structure AtByte (request : Request) (first p seen : Nat) : Prop where
  paced : bus.Paced request first p
  counted : bus.rises first p + (!(bus.core (first + p)).busy).toNat = seen
  quiet : (bus.core (first + p)).busy = false → bus.Settled first p

section Places

variable {request : Request} {first p seen : Nat} (positive : 0 < divider)
  (place : bus.AtByte request first p seen) (spans : bus.Spans (first + p))

include place spans

/-- Up to the end of a byte another one may be to come. -/
theorem AtByte.paced_byte (bound : seen ≤ request.count) {q : Nat}
    (inside : q ≤ divider * 4 * 9) : bus.Paced request first (p + q) := by
  intro i earlier low
  rcases Nat.lt_or_ge i p with before | later
  · exact place.paced i before low
  obtain ⟨j, rfl⟩ := Nat.exists_eq_add_of_le later
  rw [← Nat.add_assoc] at low
  have early : j < divider * 4 := by
    refine Nat.lt_of_not_le fun more => ?_
    rw [spans.others j more (by omega)] at low
    cases low
  have begins : (bus.core (first + p)).busy = false := (spans.first j early).symm.trans low
  have noRise : bus.rises (first + p) j = 0 :=
    (bus.edges_same _ _ fun i inside => spans.first i (by omega)).1
  have counted := place.counted
  rw [begins, Bool.not_false, Bool.toNat_true] at counted
  refine ⟨?_, (place.quiet begins).add noRise⟩
  rw [rises_add, noRise]
  omega

include positive

/-- The rising edges up to some place in the byte. -/
theorem AtByte.rises_eq {q : Nat} (later : divider * 4 ≤ q) (inside : q ≤ divider * 4 * 9) :
    bus.rises first (p + q) = seen := by
  rw [rises_add, spans.rises_eq bus positive later inside, place.counted]

/-- The byte behind it begins with `BUSY` low. -/
theorem AtByte.next (bound : seen ≤ request.count)
    (low : (bus.core (first + (p + divider * 4 * 9))).busy = false) :
    bus.AtByte request first (p + divider * 4 * 9) (seen + 1) := by
  refine ⟨place.paced_byte bus spans bound le_rfl, ?_, fun _ => ?_⟩
  · rw [place.rises_eq bus positive spans (by omega) le_rfl, low]
    rfl
  · exact spans.settled bus (by omega) le_rfl

/-- The byte behind a wait begins with `BUSY` low, too. -/
theorem AtByte.wait (more : seen < request.count)
    (low : ∀ j ≤ divider * 4, (bus.core (first + (p + divider * 4 * 9) + j)).busy = false) :
    bus.AtByte request first (p + divider * 4 * 9 + divider * 4) (seen + 1) := by
  have settled : bus.Settled first (p + divider * 4 * 9) :=
    spans.settled bus (by omega) le_rfl
  have edges := place.rises_eq bus positive spans (q := divider * 4 * 9) (by omega) le_rfl
  have noRise (j : Nat) (inside : j ≤ divider * 4) :
      bus.rises (first + (p + divider * 4 * 9)) j = 0 :=
    (bus.edges_same _ _ fun i earlier => low i (earlier.trans inside)).1
  refine ⟨?_, ?_, fun _ => settled.add (noRise _ le_rfl)⟩
  · intro i earlier low
    rcases Nat.lt_or_ge i (p + divider * 4 * 9) with before | later
    · exact place.paced_byte bus spans more.le le_rfl i before low
    · obtain ⟨j, rfl⟩ := Nat.exists_eq_add_of_le later
      refine ⟨?_, settled.add (noRise j (by omega))⟩
      rw [rises_add, edges, noRise j (by omega)]
      exact more
  · rw [rises_add, edges, noRise _ le_rfl, ← Nat.add_assoc, low _ le_rfl]
    rfl

/-- The stop behind the last byte. -/
theorem AtByte.finished (last : seen = request.count)
    (busy : ∀ j < divider * 4, (bus.core (first + (p + divider * 4 * 9) + j)).busy = true) :
    bus.Finished request first (p + divider * 4 * 9 + divider * 4) := by
  have noRise : bus.rises (first + (p + divider * 4 * 9)) (divider * 4) = 0 :=
    bus.rises_of_busy busy
  refine ⟨(place.paced_byte bus spans last.le le_rfl).add_busy busy, ?_,
    (spans.settled bus (by omega) le_rfl).add noRise⟩
  rw [rises_add, place.rises_eq bus positive spans (by omega) le_rfl, noRise, last, Nat.add_zero]

end Places

/-! ### The bytes of a write -/

/-- The rest of a write from a byte on, `k` bytes before the last one, when `seen` rising edges have
been seen by the end of that byte. -/
structure WriteRest (request : Request) (first p seen k : Nat) (byte : BitVec 8)
    (slots : List (BitVec 8 × Bool)) : Prop where
  bytes : slots.map Prod.fst = byte :: request.rest seen
  reads : Reads .low (bus.samples (first + p) (divider * 4 * (9 * k + 10)))
    (slots.flatMap (slotEvents false) ++ [.stop]) (.high true none)
  acked : bus.Acked (first + p) (divider * 4 * (9 * k + 10)) (slots.map Prod.snd)
  finished : bus.Finished request first (p + divider * 4 * (9 * k + 10))
  rest : (bus.core (first + p + divider * 4 * (9 * k + 10))).AtRest

/-- The rest of a read from a byte on, `k` bytes before the last one; its first bit is read from the
given samples. -/
structure ReadRest (request : Request) (first p k : Nat) (before : Receiver) (bit : List Sample)
    (slots : List (BitVec 8 × Bool)) : Prop where
  answers : slots.map Prod.snd = List.replicate k false ++ [true]
  reads : Reads before
    (bit ++ bus.samples (first + p + divider * 4) (divider * 4 * (10 * k + 9)))
    (slots.flatMap (slotEvents true) ++ [.stop]) (.high true none)
  reports : bus.reports (first + p) (divider * 4 * (10 * k + 10)) = slots.map Prod.fst
  acked : bus.Acked (first + p) (divider * 4 * (10 * k + 10)) []
  finished : bus.Finished request first (p + divider * 4 * (10 * k + 10))
  rest : (bus.core (first + p + divider * 4 * (10 * k + 10))).AtRest

section Runs

variable {request : Request} {first : Nat} (positive : 0 < divider)
  (asks : ∀ j, bus.Settled first j → bus.Paced request first j →
    request.Asks (bus.rises first j) (bus.command (first + j)))

include positive asks

/-- At the end of a byte, and of the eight bits before its acknowledge slot, the command is the one
for the edges seen in it. -/
theorem asks_in_byte {p seen q : Nat} (place : bus.AtByte request first p seen)
    (spans : bus.Spans (first + p)) (bound : seen ≤ request.count)
    (later : divider * 4 * 2 < q) (inside : q ≤ divider * 4 * 9) :
    request.Asks seen (bus.command (first + p + q - 1)) := by
  have settled := spans.settled bus (q := q - 1) (by omega) (by omega)
  have asked := asks _ settled (place.paced_byte bus spans bound (by omega))
  rwa [place.rises_eq bus positive spans (by omega) (by omega),
    show first + (p + (q - 1)) = first + p + q - 1 by omega] at asked

/-- The last byte is followed by the stop. -/
theorem write_last {p seen : Nat} {byte : BitVec 8} (left : seen = request.count)
    (risen : (bus.core (first + p)).Risen divider) (stage : (bus.core (first + p)).AtWrite byte)
    (place : bus.AtByte request first p seen) :
    ∃ ack, bus.WriteRest request first p seen 0 byte [(byte, ack)] := by
  have spans := bus.spans_write positive risen stage
  have asked := bus.asks_in_byte positive asks place spans left.le (q := divider * 4 * 9)
    (by omega) le_rfl
  obtain ⟨ack, reads, acked, _, ends⟩ := bus.written_byte positive risen stage
  obtain ⟨dataRd, stop⟩ := ends (asked.1.trans (decide_eq_false (by omega)))
  have risen' := bus.risen_periods positive risen 9
  obtain ⟨stops, rest, _, kept⟩ := bus.stop_period positive risen' stop
  have size : divider * 4 * (9 * 0 + 10) = divider * 4 * 9 + divider * 4 := by omega
  refine ⟨ack, ?_, ?_, ?_, ?_, ?_⟩
  · rw [Request.rest_of_le left.ge]
    rfl
  · rw [size, samples_add]
    exact reads.append stops
  · rw [size]
    exact acked.append bus kept
  · rw [size, ← Nat.add_assoc]
    refine place.finished bus positive spans left fun j inside => ?_
    rw [← Nat.add_assoc, bus.busy_within positive risen' inside, stop.busy]
  · rw [size, ← Nat.add_assoc]
    exact rest

/-- A byte that is not the last one is followed by the next value. -/
theorem write_more (write : request.rW = false) {p seen : Nat} {byte : BitVec 8}
    (more : seen < request.count) (risen : (bus.core (first + p)).Risen divider)
    (stage : (bus.core (first + p)).AtWrite byte) (place : bus.AtByte request first p seen) :
    (bus.core (first + (p + divider * 4 * 9))).Risen divider ∧
      (bus.core (first + (p + divider * 4 * 9))).AtWrite (request.values seen) ∧
      bus.AtByte request first (p + divider * 4 * 9) (seen + 1) ∧
      ∃ ack, ∀ {k : Nat} {slots : List (BitVec 8 × Bool)},
        bus.WriteRest request first (p + divider * 4 * 9) (seen + 1) k (request.values seen) slots →
          bus.WriteRest request first p seen (k + 1) byte ((byte, ack) :: slots) := by
  have spans := bus.spans_write positive risen stage
  have asked := bus.asks_in_byte positive asks place spans more.le (q := divider * 4 * 9)
    (by omega) le_rfl
  obtain ⟨ack, reads, acked, goes, _⟩ := bus.written_byte positive risen stage
  obtain ⟨wants, value⟩ := asked.2 more
  obtain ⟨low, next⟩ := goes (asked.1.trans (decide_eq_true more)) (wants.trans write)
  rw [value write] at next
  have risen' := bus.risen_periods positive risen 9
  rw [Nat.add_assoc] at risen' next low
  refine ⟨risen', next, place.next bus positive spans more.le low, ack, fun {k slots} later => ?_⟩
  have size :
      divider * 4 * (9 * (k + 1) + 10) = divider * 4 * 9 + divider * 4 * (9 * k + 10) := by
    ring
  refine ⟨?_, ?_, ?_, ?_, ?_⟩
  · rw [List.map_cons, later.bytes, ← Request.rest_of_lt more]
  · rw [size, samples_add, List.flatMap_cons, List.append_assoc, Nat.add_assoc]
    exact reads.append later.reads
  · rw [size]
    exact acked.append bus (by rw [Nat.add_assoc]; exact later.acked)
  · rw [size, ← Nat.add_assoc]
    exact later.finished
  · rw [size, ← Nat.add_assoc, Nat.add_assoc first]
    exact later.rest

theorem write_run (write : request.rW = false) (k : Nat) {p seen : Nat} {byte : BitVec 8}
    (left : seen + k = request.count) (risen : (bus.core (first + p)).Risen divider)
    (stage : (bus.core (first + p)).AtWrite byte) (place : bus.AtByte request first p seen) :
    ∃ slots, bus.WriteRest request first p seen k byte slots := by
  induction k generalizing p seen byte with
  | zero =>
    obtain ⟨ack, rest⟩ := bus.write_last positive asks left risen stage place
    exact ⟨_, rest⟩
  | succ k inductionHypothesis =>
    obtain ⟨risen', next, place', ack, joins⟩ :=
      bus.write_more positive asks write (by omega) risen stage place
    obtain ⟨slots, rest⟩ := inductionHypothesis (by omega) risen' next place'
    exact ⟨_, joins rest⟩

/-! ### The bytes of a read -/

/-- A byte read with its acknowledge slot: it is acknowledged if another one is to come. -/
theorem read_slot (read : request.rW = true) {p seen : Nat} {before : Receiver}
    {bit : List Sample} (bound : seen ≤ request.count)
    (risen : (bus.core (first + p)).Risen divider) (takes : (bus.core (first + p)).Takes)
    (place : bus.AtByte request first p seen)
    (starts : Reads before bit [.bit true (bus.level (first + p))] .low) :
    Reads before (bit ++ bus.samples (first + p + divider * 4) (divider * 4 * 8))
        (slotEvents true (bus.readByte (first + p), !decide (seen < request.count))) .low ∧
      bus.Acked (first + p) (divider * 4 * 9) [] ∧
      (seen < request.count →
        (bus.core (first + p + divider * 4 * 9)).AtWait (bus.readByte (first + p))) ∧
      (seen = request.count →
        (bus.core (first + p + divider * 4 * 9)).AtStop (bus.readByte (first + p))) := by
  have spans := bus.spans_read positive risen takes
  obtain ⟨ena, more⟩ := bus.asks_in_byte positive asks place spans bound (q := divider * 4 * 8)
    (by omega) (by omega)
  obtain ⟨enaEnd, moreEnd⟩ := bus.asks_in_byte positive asks place spans bound
    (q := divider * 4 * 9) (by omega) le_rfl
  have acks := bus.read_byte positive risen takes
  have answer : (decide (seen < request.count) &&
      (bus.command (first + p + divider * 4 * 8 - 1)).rW) = decide (seen < request.count) := by
    rcases Nat.lt_or_ge seen request.count with less | reached
    · rw [(more less).1, read, Bool.and_true]
    · rw [decide_eq_false (Nat.not_lt.mpr reached), Bool.false_and]
  rw [ena, answer] at acks
  obtain ⟨slot, acked, goes, ends⟩ :=
    bus.ack_slot positive (bus.risen_periods positive risen 8) acks
  have flags := (bus.acked_taken positive risen takes).append bus acked
  rw [← Nat.mul_succ, List.nil_append] at flags
  rw [place_slot] at goes ends
  refine ⟨?_, flags, fun less => ?_, fun reached => ?_⟩
  · have reads := (bus.reads_taken positive risen takes starts).append slot
    have place : first + p + divider * 4 * 8 = first + p + divider * 4 + divider * 4 * 7 := by
      omega
    rwa [List.append_assoc, place, ← samples_add, ← Nat.mul_succ] at reads
  · exact goes (enaEnd.trans (decide_eq_true less)) ((moreEnd less).1.trans read)
  · have sent : ¬seen < request.count := by omega
    exact ends (enaEnd.trans (decide_eq_false sent)) (by rw [decide_eq_false sent]; rfl)

/-- The last byte is followed by the stop. -/
theorem read_last (read : request.rW = true) {p seen : Nat} {before : Receiver}
    {bit : List Sample} (left : seen = request.count)
    (risen : (bus.core (first + p)).Risen divider) (takes : (bus.core (first + p)).Takes)
    (place : bus.AtByte request first p seen)
    (starts : Reads before bit [.bit true (bus.level (first + p))] .low) :
    bus.ReadRest request first p 0 before bit [(bus.readByte (first + p), true)] := by
  have spans := bus.spans_read positive risen takes
  obtain ⟨reads, flags, _, ends⟩ :=
    bus.read_slot positive asks read left.le risen takes place starts
  rw [decide_eq_false (by omega), Bool.not_false] at reads
  have stop := ends left
  have risenStop := bus.risen_periods positive risen 9
  obtain ⟨stops, rest, byte, kept⟩ := bus.stop_period positive risenStop stop
  have size : divider * 4 * (10 * 0 + 10) = divider * 4 * 9 + divider * 4 := by omega
  refine ⟨rfl, ?_, ?_, ?_, ?_, ?_⟩
  · have split : divider * 4 * (10 * 0 + 9) = divider * 4 * 8 + divider * 4 := by omega
    rw [split, samples_add, List.flatMap_singleton, ← List.append_assoc,
      show first + p + divider * 4 + divider * 4 * 8 = first + p + divider * 4 * 9 by omega]
    exact reads.append stops
  · rw [size, reports_add, spans.reports_eq bus positive, stop.busy, if_pos rfl,
      bus.reports_period positive risenStop, stop.busy, rest.busy, byte]
    rfl
  · rw [size]
    exact flags.append bus kept
  · rw [size, ← Nat.add_assoc]
    refine place.finished bus positive spans left fun j inside => ?_
    rw [← Nat.add_assoc, bus.busy_within positive risenStop inside, stop.busy]
  · rw [size, ← Nat.add_assoc]
    exact rest

/-- A byte that is not the last one is followed by a wait, over which the clock line is stretched,
and the next byte. -/
theorem read_more (read : request.rW = true) {p seen : Nat} {before : Receiver}
    {bit : List Sample} (more : seen < request.count)
    (risen : (bus.core (first + p)).Risen divider) (takes : (bus.core (first + p)).Takes)
    (place : bus.AtByte request first p seen)
    (starts : Reads before bit [.bit true (bus.level (first + p))] .low) :
    ∃ (q : Nat) (stretched : List Sample),
      (bus.core (first + q)).Risen divider ∧ (bus.core (first + q)).Takes ∧
      bus.AtByte request first q (seen + 1) ∧
      Reads .low stretched [.bit true (bus.level (first + q))] .low ∧
      ∀ {k : Nat} {slots : List (BitVec 8 × Bool)},
        bus.ReadRest request first q k .low stretched slots →
          bus.ReadRest request first p (k + 1) before bit
            ((bus.readByte (first + p), false) :: slots) := by
  have spans := bus.spans_read positive risen takes
  obtain ⟨reads, flags, goes, _⟩ :=
    bus.read_slot positive asks read more.le risen takes place starts
  rw [decide_eq_true more, Bool.not_true] at reads
  have wait := goes more
  have risenWait := bus.risen_periods positive risen 9
  obtain ⟨next, _, _, firstBit, waited⟩ := bus.wait_period positive risenWait wait
  have risenNext := bus.risen_period positive risenWait
  have low := bus.busy_wait positive risenWait wait
  obtain ⟨_, quiet⟩ := bus.edges_same _ _ low
  have back : first + p + divider * 4 * 9 + divider * 4 =
      first + (p + divider * 4 * 9 + divider * 4) := by omega
  rw [back] at next risenNext firstBit
  refine ⟨_, _, risenNext, next,
    place.wait bus positive spans more (by rwa [← Nat.add_assoc]), firstBit,
    fun {k slots} later => ?_⟩
  obtain ⟨answers, later, told, quietly, finished, rest⟩ := later
  rw [← back] at later told quietly rest
  have split : divider * 4 * (10 * (k + 1) + 10) =
      divider * 4 * 9 + (divider * 4 + divider * 4 * (10 * k + 10)) := by ring
  refine ⟨?_, ?_, ?_, ?_, ?_, ?_⟩
  · rw [List.map_cons, answers, List.replicate_succ, List.cons_append]
  · have parts : divider * 4 * (10 * (k + 1) + 9) =
        divider * 4 * 8 + (divider * 4 + (divider * 4 + divider * 4 * (10 * k + 9))) := by
      ring
    rw [parts, samples_add, samples_add, samples_add,
      show first + p + divider * 4 + divider * 4 * 8 = first + p + divider * 4 * 9 by omega,
      List.flatMap_cons, List.append_assoc, ← List.append_assoc bit,
      ← List.append_assoc (bus.samples (first + p + divider * 4 * 9) (divider * 4))]
    exact reads.append later
  · rw [split, reports_add, reports_add, spans.reports_eq bus positive, wait.busy, quiet, told,
      wait.byte_eq]
    rfl
  · rw [split]
    exact flags.append bus (waited.append bus quietly)
  · rw [split, ← Nat.add_assoc, ← Nat.add_assoc]
    exact finished
  · rw [split, ← Nat.add_assoc, ← Nat.add_assoc]
    exact rest

theorem read_run (read : request.rW = true) (k : Nat) {p seen : Nat} {before : Receiver}
    {bit : List Sample} (left : seen + k = request.count)
    (risen : (bus.core (first + p)).Risen divider) (takes : (bus.core (first + p)).Takes)
    (place : bus.AtByte request first p seen)
    (starts : Reads before bit [.bit true (bus.level (first + p))] .low) :
    ∃ slots, bus.ReadRest request first p k before bit slots := by
  induction k generalizing p seen before bit with
  | zero => exact ⟨_, bus.read_last positive asks read left risen takes place starts⟩
  | succ k inductionHypothesis =>
    obtain ⟨q, stretched, risen', next, place', starts', joins⟩ :=
      bus.read_more positive asks read (by omega) risen takes place starts
    obtain ⟨slots, rest⟩ := inductionHypothesis (by omega) risen' next place' starts'
    exact ⟨_, joins rest⟩

end Runs

end Bus

end K71GbE.I2c
