/-
This file proves how far one write run goes and how it notices.

The status process compares the write pointer with the begin address one memory
size further on, one clock after the pointer has moved. The invariant below
counts accepted WRITE commands against the `2 ^ (w - 1) / burst` bursts of the
memory: until the flag is set the pointer has not overflowed, and the flag is
set one clock after the last burst, with no command on the bus in between.
-/

import K71GbE.Sdram.WriteRun
import K71GbE.Clocked.Ring

namespace K71GbE.Sdram

open BusEvent

variable {w : Nat} {burst : Nat} {core : Core w} {edge start : Edge w}

/-! ### The collision test -/

theorem wrapAddress_toNat (positive : 0 < w) (begin : BitVec w)
    (low : begin.toNat < 2 ^ (w - 1)) :
    (wrapAddress begin).toNat = 2 ^ (w - 1) + begin.toNat := by
  have double : 2 ^ (w - 1) + 2 ^ (w - 1) = 2 ^ w := Nat.two_pow_pred_add_two_pow_pred positive
  rw [wrapAddress, BitVec.toNat_ofNat, Nat.mod_eq_of_lt low, Nat.mod_eq_of_lt (by omega)]

/-- While at most one lap is done the pointer has not overflowed, and it meets the begin
address again exactly at the end of the lap. -/
theorem collision_iff (positive : 0 < w) {begin : BitVec w} (low : begin.toNat < 2 ^ (w - 1))
    (divides : burst ∣ 2 ^ (w - 1)) {count : Nat} (lap : count ≤ 2 ^ (w - 1) / burst) :
    wrapAddress begin ≤ burstAddress burst begin count ↔ count = 2 ^ (w - 1) / burst := by
  have double : 2 ^ (w - 1) + 2 ^ (w - 1) = 2 ^ w := Nat.two_pow_pred_add_two_pow_pred positive
  have whole : burst * (2 ^ (w - 1) / burst) = 2 ^ (w - 1) := Nat.mul_div_cancel' divides
  have burstPositive : 0 < burst := Nat.pos_of_dvd_of_pos divides (Nat.two_pow_pos _)
  have moved : burst * count ≤ burst * (2 ^ (w - 1) / burst) := Nat.mul_le_mul_left _ lap
  rw [BitVec.le_def, wrapAddress_toNat positive begin low, burstAddress_toNat,
    Nat.mod_eq_of_lt (by omega)]
  constructor
  · intro reached
    exact le_antisymm lap (Nat.le_of_mul_le_mul_left (by omega) burstPositive)
  · rintro rfl
    omega

/-! ### The invariant -/

/-- A write run against the number of bursts `lap` in the memory. -/
structure Coverage (burst lap : Nat) (begin : BitVec w) (wrap : Bool) (core : Core w)
    (commands : List (BitVec w)) : Prop where
  run : WriteRun burst begin core commands
  beginReg : core.status.wrAddrBeginReg = begin
  wrapReg : core.status.wrWrapAroundReg = wrap
  noStop : core.status.wrStopping = false
  unwrapped : core.status.wrWrappedI = false → core.status.wrWriting = true ∧
    commands.length ≤ lap ∧ (commands.length = lap → core.writer.writeState = .W0)
  wrapped : core.status.wrWrappedI = true → lap ≤ commands.length ∧
    core.status.wrWriting = wrap ∧ (wrap = false → commands.length = lap)

section Law

variable {begin : BitVec w} {wrap : Bool} {commands : List (BitVec w)}

theorem Coverage.ofStart (burst : Nat) {lap : Nat} (lapPositive : 0 < lap) (idle : core.Idle)
    (starts : start.StartsWriting) (noStopPending : core.stopReached = false) :
    Coverage burst lap start.wrAddrBegin start.wrWrapAround (core.clock burst start) [] := by
  have run := WriteRun.ofStart burst idle starts
  obtain ⟨running, pulse, noStop, noRead⟩ := starts
  refine ⟨run, ?_, ?_, ?_, ?_, ?_⟩ <;>
    rw [Core.clock_of_running running, statusProcess_eq] <;>
    simp [pulse, noStop, noRead, noStopPending, lapPositive.ne]

/-- At most one command is accepted at an edge, and only in the command state. -/
theorem WriteRun.length_writes (run : WriteRun burst begin core commands)
    (running : edge.inReset = false) :
    (writes (core.busEvents edge)).length = 0 ∨
      (writes (core.busEvents edge)).length = 1 ∧ core.status.wrWriting = true ∧
        core.writer.writeState = .W2 ∧ edge.appRdy = true := by
  rw [run.writes_busEvents running]
  split
  · rename_i accepted
    exact Or.inr ⟨rfl, accepted⟩
  · exact Or.inl rfl

/-- After an accepted command the write FSM is in `W0`. -/
theorem writeState_of_accepted (quiet : edge.Quiet) (state : core.writer.writeState = .W2)
    (ready : edge.appRdy = true) : (core.clock burst edge).writer.writeState = .W0 := by
  rw [Core.clock_of_running quiet.1, writeProcess_of_noStart quiet.2.1,
    writeFsm_of_accepted state ready]

/-- The status registers a coverage argument reads, after a quiet edge. -/
theorem Coverage.status_step {lap : Nat} (coverage : Coverage burst lap begin wrap core commands)
    (quiet : edge.Quiet) :
    (core.clock burst edge).status.wrAddrBeginReg = begin ∧
      (core.clock burst edge).status.wrWrapAroundReg = wrap ∧
      (core.clock burst edge).status.wrStopping = false ∧
      (core.clock burst edge).status.wrWrappedI = (core.collision || core.status.wrWrappedI) ∧
      (core.clock burst edge).status.wrWriting =
        (core.status.wrWriting && !(core.collision && !wrap)) := by
  have noReach : core.stopReached = false := by simp [Core.stopReached, coverage.noStop]
  obtain ⟨running, noStart, noStop, noRead⟩ := quiet
  rw [Core.clock_of_running running, statusProcess_eq]
  simp only [noStart, noStop, noRead, noReach, Core.autoStop, coverage.beginReg,
    coverage.wrapReg, coverage.noStop, Bool.false_eq_true, Bool.false_and, if_false, true_and]
  cases core.collision <;> cases wrap <;> simp

/-- Before the flag is set, the collision test says that the lap is complete. -/
theorem Coverage.collision_eq (positive : 0 < w) (low : begin.toNat < 2 ^ (w - 1))
    (divides : burst ∣ 2 ^ (w - 1))
    (coverage : Coverage burst (2 ^ (w - 1) / burst) begin wrap core commands)
    (unwrapped : core.status.wrWrappedI = false) :
    core.collision = decide (commands.length = 2 ^ (w - 1) / burst) := by
  obtain ⟨writing, lap, _⟩ := coverage.unwrapped unwrapped
  rw [Core.collision, coverage.beginReg, coverage.run.pointer writing]
  exact decide_eq_decide.mpr (collision_iff positive low divides lap)

/-- At the clock of the collision the lap is complete and no command is accepted. -/
theorem Coverage.at_collision (positive : 0 < w) (low : begin.toNat < 2 ^ (w - 1))
    (divides : burst ∣ 2 ^ (w - 1))
    (coverage : Coverage burst (2 ^ (w - 1) / burst) begin wrap core commands)
    (running : edge.inReset = false) (unwrapped : core.status.wrWrappedI = false)
    (collision : core.collision = true) :
    commands.length = 2 ^ (w - 1) / burst ∧ writes (core.busEvents edge) = [] := by
  obtain ⟨_, _, rests⟩ := coverage.unwrapped unwrapped
  have full : commands.length = 2 ^ (w - 1) / burst := by
    rwa [coverage.collision_eq positive low divides unwrapped, decide_eq_true_eq] at collision
  exact ⟨full, coverage.run.writes_of_wait running (by simp [rests full])⟩

/-- A quiet edge keeps the invariant. -/
theorem Coverage.step (positive : 0 < w) (low : begin.toNat < 2 ^ (w - 1))
    (divides : burst ∣ 2 ^ (w - 1))
    (coverage : Coverage burst (2 ^ (w - 1) / burst) begin wrap core commands)
    (quiet : edge.Quiet) :
    Coverage burst (2 ^ (w - 1) / burst) begin wrap (core.clock burst edge)
      (commands ++ writes (core.busEvents edge)) := by
  obtain ⟨beginReg, wrapReg, noStop, wrappedAfter, writingAfter⟩ :=
    coverage.status_step quiet
  have accepted := coverage.run.length_writes quiet.1
  refine ⟨coverage.run.step quiet, beginReg, wrapReg, noStop, ?_, ?_⟩ <;>
    rw [wrappedAfter, writingAfter, List.length_append]
  · intro unwrapped
    rw [Bool.or_eq_false_iff] at unwrapped
    obtain ⟨noCollision, unwrapped⟩ := unwrapped
    obtain ⟨writing, bound, _⟩ := coverage.unwrapped unwrapped
    rw [coverage.collision_eq positive low divides unwrapped, decide_eq_false_iff_not]
      at noCollision
    refine ⟨by simp [writing, coverage.collision_eq positive low divides unwrapped, noCollision],
      ?_, ?_⟩
    · rcases accepted with nothing | ⟨one, _⟩ <;> omega
    · intro full
      rcases accepted with nothing | ⟨_, _, state, ready⟩
      · exact absurd (by omega) noCollision
      · exact writeState_of_accepted quiet state ready
  · intro wrapped
    cases before : core.status.wrWrappedI with
    | false =>
      have writing := (coverage.unwrapped before).1
      have collision : core.collision = true := by simpa [before] using wrapped
      obtain ⟨full, silent⟩ :=
        coverage.at_collision positive low divides quiet.1 before collision
      rw [silent, List.length_nil, Nat.add_zero]
      exact ⟨full.ge, by simp [writing, collision], fun _ => full⟩
    | true =>
      obtain ⟨bound, writing, exact⟩ := coverage.wrapped before
      refine ⟨by omega, by cases wrap <;> simp [writing], fun noWrap => ?_⟩
      subst noWrap
      rcases accepted with nothing | ⟨_, stillWriting, _⟩
      · rw [nothing, exact rfl, Nat.add_zero]
      · exact absurd stillWriting (by simp [writing])

theorem Coverage.runs (positive : 0 < w) (low : begin.toNat < 2 ^ (w - 1))
    (divides : burst ∣ 2 ^ (w - 1)) {edges : List (Edge w)}
    (coverage : Coverage burst (2 ^ (w - 1) / burst) begin wrap core commands)
    (quiet : ∀ edge ∈ edges, edge.Quiet) :
    Coverage burst (2 ^ (w - 1) / burst) begin wrap (Clocked.run (Core.clock burst) core edges)
      (commands ++ writes (core.busLog burst edges)) := by
  induction edges generalizing core commands with
  | nil => simpa [Core.busLog] using coverage
  | cons edge rest inductionHypothesis =>
    have tail := inductionHypothesis
      (coverage.step positive low divides (quiet edge List.mem_cons_self))
      fun other member => quiet other (List.mem_cons_of_mem _ member)
    rwa [List.append_assoc, ← writes_append] at tail

/-- Once the lap is complete, a quiet edge sets the flag. -/
theorem Coverage.wraps_next (positive : 0 < w) (low : begin.toNat < 2 ^ (w - 1))
    (divides : burst ∣ 2 ^ (w - 1))
    (coverage : Coverage burst (2 ^ (w - 1) / burst) begin wrap core commands)
    (quiet : edge.Quiet) (full : 2 ^ (w - 1) / burst ≤ commands.length) :
    (core.clock burst edge).status.wrWrappedI = true := by
  obtain ⟨_, _, _, wrappedAfter, _⟩ := coverage.status_step quiet
  rw [wrappedAfter]
  cases before : core.status.wrWrappedI with
  | true => rw [Bool.or_true]
  | false =>
    rw [coverage.collision_eq positive low divides before, Bool.or_false, decide_eq_true_eq]
    exact le_antisymm (coverage.unwrapped before).2.1 full

/-- The flag, once set, is kept by a quiet edge. -/
theorem Coverage.wrapped_next {lap : Nat} (coverage : Coverage burst lap begin wrap core commands)
    (quiet : edge.Quiet) (wrapped : core.status.wrWrappedI = true) :
    (core.clock burst edge).status.wrWrappedI = true := by
  obtain ⟨_, _, _, wrappedAfter, _⟩ := coverage.status_step quiet
  rw [wrappedAfter, wrapped, Bool.or_true]

end Law

/-! ### The law of a write run -/

/-- In an idle buffer a pending stop is gone, or can no longer be reached, after one edge. -/
theorem Core.Idle.stopReached_next (idle : core.Idle) (quiet : edge.Quiet) :
    (core.clock burst edge).stopReached = false := by
  obtain ⟨running, noStart, noStop, noRead⟩ := quiet
  rw [Core.clock_of_running running, writeProcess_of_noStart noStart, idle.writeFsm_eq,
    statusProcess_eq]
  simp only [Core.stopReached, Core.atStopAddress, noStart, noStop, noRead]
  by_cases reached :
      core.status.triggerPointerReg + core.status.postTriggerReg = core.writer.wrAddrI <;>
    cases core.status.wrStopping <;> simp [reached]

theorem OneWriteStart.coverage (positive : 0 < w) (divides : burst ∣ 2 ^ (w - 1))
    {buffer : Buffer w} (idle : buffer.core.Idle)
    (unpulsed : buffer.wrStartConverter.outProc.pulseout = false) {inputs : List (Ports w)}
    (one : OneWriteStart (buffer.edges burst inputs) start)
    (low : start.wrAddrBegin.toNat < 2 ^ (w - 1)) :
    Coverage burst (2 ^ (w - 1) / burst) start.wrAddrBegin start.wrWrapAround
      (buffer.run burst inputs).core (buffer.writes burst inputs) := by
  obtain ⟨before, after, split, quietBefore, starts, quietAfter⟩ := one
  have lapPositive : 0 < 2 ^ (w - 1) / burst :=
    Nat.div_pos (Nat.le_of_dvd (Nat.two_pow_pos _) divides)
      (Nat.pos_of_dvd_of_pos divides (Nat.two_pow_pos _))
  obtain ⟨idleBefore, silent⟩ :=
    idle.run burst fun edge member => (quietBefore edge member).noStart
  have noReach : (Clocked.run (Core.clock burst) buffer.core before).stopReached = false := by
    rcases List.eq_nil_or_concat' before with rfl | ⟨earlier, last, rfl⟩
    · cases inputs with
      | nil => cases split
      | cons first rest =>
        rw [Buffer.edges, Clocked.feed, List.nil_append, List.cons.injEq] at split
        have pulse := starts.2.1
        rw [← split.1] at pulse
        simp only [Buffer.edge, Pulse2pulse.settle] at pulse
        cases reset : first.reset <;> simp [reset, unpulsed, Pulse2pulse.reset] at pulse
    · rw [Clocked.run_concat]
      have idleEarlier := (idle.run burst fun edge member =>
        (quietBefore edge (List.mem_append_left _ member)).noStart).1
      exact idleEarlier.stopReached_next (quietBefore last (by simp))
  have ran := (Coverage.ofStart burst lapPositive idleBefore starts noReach).runs
    positive low divides quietAfter
  rw [List.nil_append] at ran
  rw [Buffer.core_run, Buffer.writes, Buffer.busLog, split, Clocked.run_append, Clocked.run_cons]
  rw [Core.busLog] at silent
  rw [Core.busLog, Clocked.log_append, silent, List.nil_append, Clocked.log_cons,
    idleBefore.busEvents starts.1, List.nil_append]
  exact ran

/-- A run of the entity to which no pulse is delivered, outside reset. -/
def Buffer.QuietRun (burst : Nat) (buffer : Buffer w) (inputs : List (Ports w)) : Prop :=
  ∀ edge ∈ buffer.edges burst inputs, edge.Quiet

/-- What holds at the end of a run with one write start, and of the quiet clocks after it. -/
structure WriteCoverage (burst : Nat) (buffer : Buffer w) (inputs : List (Ports w))
    (start : Edge w) : Prop where
  /-- The `i`-th accepted WRITE command goes to the `i`-th address after the begin. -/
  address : ∀ i (accepted : i < (buffer.writes burst inputs).length),
    ((buffer.writes burst inputs)[i]).toNat =
      (start.wrAddrBegin.toNat + burst * i) % 2 ^ (w - 1)
  /-- `WR_WRAPPED` is set only after a whole lap. -/
  wrapAfter : (buffer.run burst inputs).core.wrWrapped = true →
    2 ^ (w - 1) / burst ≤ (buffer.writes burst inputs).length
  /-- At the clock at which it is set exactly one lap has been accepted. -/
  wrapAt : ∀ next, (buffer.run burst inputs).QuietRun burst [next] →
    (buffer.run burst inputs).core.wrWrapped = false →
    (buffer.run burst (inputs ++ [next])).core.wrWrapped = true →
    (buffer.writes burst (inputs ++ [next])).length = 2 ^ (w - 1) / burst
  /-- It is set within two clocks of the end of the lap. -/
  wrapWithin : 2 ^ (w - 1) / burst ≤ (buffer.writes burst inputs).length →
    ∀ first second, (buffer.run burst inputs).QuietRun burst [first, second] →
      (buffer.run burst (inputs ++ [first, second])).core.wrWrapped = true
  /-- Without wrap-around one lap is written and `WR_BUSY` falls after it. -/
  once : start.wrWrapAround = false →
    (buffer.writes burst inputs).length ≤ 2 ^ (w - 1) / burst ∧
    ((buffer.run burst inputs).core.wrBusy = false →
      (buffer.writes burst inputs).length = 2 ^ (w - 1) / burst) ∧
    (2 ^ (w - 1) / burst ≤ (buffer.writes burst inputs).length →
      ∀ first second, (buffer.run burst inputs).QuietRun burst [first, second] →
        (buffer.run burst (inputs ++ [first, second])).core.wrBusy = false) ∧
    ((buffer.writes burst inputs).length = 2 ^ (w - 1) / burst →
      (buffer.writes burst inputs).Nodup ∧
      ∀ address, address ∈ buffer.writes burst inputs ↔
        address.toNat < 2 ^ (w - 1) ∧ address.toNat % burst = start.wrAddrBegin.toNat % burst)
  /-- With wrap-around `WR_BUSY` stays high, and `WR_WRAPPED` once it is set. -/
  always : start.wrWrapAround = true →
    (buffer.run burst inputs).core.wrBusy = true ∧
    ((buffer.run burst inputs).core.wrWrapped = true →
      ∀ later, (buffer.run burst inputs).QuietRun burst later →
        (buffer.run burst (inputs ++ later)).core.wrWrapped = true)

section Law

variable {begin : BitVec w} {wrap : Bool} {buffer : Buffer w}

/-- One lap of commands covers the residue class of the begin address, each address once. -/
theorem commandAddresses_lap (divides : burst ∣ 2 ^ (w - 1)) (begin : BitVec w) :
    (commandAddresses burst begin (2 ^ (w - 1) / burst)).Nodup ∧
      ∀ address, address ∈ commandAddresses burst begin (2 ^ (w - 1) / burst) ↔
        address.toNat < 2 ^ (w - 1) ∧ address.toNat % burst = begin.toNat % burst := by
  have onRing : ∀ k, (memoryAddress (burstAddress burst begin k)).toNat =
      Clocked.Ring.walk (2 ^ (w - 1)) burst begin.toNat k :=
    memoryAddress_burstAddress begin
  constructor
  · refine List.nodup_range.map_on fun k kLap l lLap same => ?_
    have met : Clocked.Ring.walk (2 ^ (w - 1)) burst begin.toNat k =
        Clocked.Ring.walk (2 ^ (w - 1)) burst begin.toNat l := by
      rw [← onRing, ← onRing, same]
    exact Clocked.Ring.walk_injective divides (Nat.two_pow_pos _) (List.mem_range.mp kLap)
      (List.mem_range.mp lLap) met
  · intro address
    simp only [commandAddresses, List.mem_map, List.mem_range]
    constructor
    · rintro ⟨k, _, rfl⟩
      rw [onRing]
      exact ⟨Clocked.Ring.walk_lt (Nat.two_pow_pos _) k, Clocked.Ring.walk_mod divides k⟩
    · rintro ⟨inside, residue⟩
      obtain ⟨k, lap, met⟩ := Clocked.Ring.exists_walk divides inside residue
      exact ⟨k, lap, BitVec.eq_of_toNat_eq ((onRing k).trans met)⟩

/-- Both parts of a quiet run are quiet. -/
theorem Buffer.QuietRun.split {inputs first second : List (Ports w)}
    (quiet : (buffer.run burst inputs).QuietRun burst (first ++ second)) :
    (buffer.run burst inputs).QuietRun burst first ∧
      (buffer.run burst (inputs ++ first)).QuietRun burst second := by
  rw [Buffer.QuietRun, Buffer.edges_append, List.forall_mem_append] at quiet
  rwa [Buffer.run_append]

/-- The invariant at the end of quiet clocks after a run. -/
theorem Coverage.later (positive : 0 < w) (low : begin.toNat < 2 ^ (w - 1))
    (divides : burst ∣ 2 ^ (w - 1)) {inputs later : List (Ports w)}
    (coverage : Coverage burst (2 ^ (w - 1) / burst) begin wrap
      (buffer.run burst inputs).core (buffer.writes burst inputs))
    (quiet : (buffer.run burst inputs).QuietRun burst later) :
    Coverage burst (2 ^ (w - 1) / burst) begin wrap
      (buffer.run burst (inputs ++ later)).core (buffer.writes burst (inputs ++ later)) := by
  rw [Buffer.run_append, Buffer.core_run, Buffer.writes_append]
  exact coverage.runs positive low divides quiet

theorem Coverage.wrapped_later (positive : 0 < w) (low : begin.toNat < 2 ^ (w - 1))
    (divides : burst ∣ 2 ^ (w - 1)) {inputs later : List (Ports w)}
    (coverage : Coverage burst (2 ^ (w - 1) / burst) begin wrap
      (buffer.run burst inputs).core (buffer.writes burst inputs))
    (quiet : (buffer.run burst inputs).QuietRun burst later)
    (wrapped : (buffer.run burst inputs).core.wrWrapped = true) :
    (buffer.run burst (inputs ++ later)).core.wrWrapped = true := by
  induction later generalizing inputs with
  | nil => rwa [List.append_nil]
  | cons next rest inductionHypothesis =>
    rw [← List.singleton_append] at quiet
    obtain ⟨first, others⟩ := quiet.split
    rw [List.append_cons]
    refine inductionHypothesis (coverage.later positive low divides first) others ?_
    rw [Buffer.run_append]
    exact coverage.wrapped_next (first _ List.mem_cons_self) wrapped

theorem Coverage.wraps_within (positive : 0 < w) (low : begin.toNat < 2 ^ (w - 1))
    (divides : burst ∣ 2 ^ (w - 1)) {inputs : List (Ports w)} {first second : Ports w}
    (coverage : Coverage burst (2 ^ (w - 1) / burst) begin wrap
      (buffer.run burst inputs).core (buffer.writes burst inputs))
    (quiet : (buffer.run burst inputs).QuietRun burst [first, second])
    (full : 2 ^ (w - 1) / burst ≤ (buffer.writes burst inputs).length) :
    (buffer.run burst (inputs ++ [first, second])).core.wrWrapped = true := by
  rw [← List.singleton_append] at quiet
  obtain ⟨one, other⟩ := quiet.split
  rw [List.append_cons]
  refine (coverage.later positive low divides one).wrapped_later positive low divides other ?_
  rw [Buffer.run_append]
  exact coverage.wraps_next positive low divides (one _ List.mem_cons_self) full

/-- The quiet clock that sets the flag accepts no command, and the commands are a lap. -/
theorem Coverage.wraps_at (positive : 0 < w) (low : begin.toNat < 2 ^ (w - 1))
    (divides : burst ∣ 2 ^ (w - 1)) {inputs : List (Ports w)} {next : Ports w}
    (coverage : Coverage burst (2 ^ (w - 1) / burst) begin wrap
      (buffer.run burst inputs).core (buffer.writes burst inputs))
    (quiet : (buffer.run burst inputs).QuietRun burst [next])
    (before : (buffer.run burst inputs).core.wrWrapped = false)
    (after : (buffer.run burst (inputs ++ [next])).core.wrWrapped = true) :
    (buffer.writes burst (inputs ++ [next])).length = 2 ^ (w - 1) / burst := by
  have quietEdge := quiet _ List.mem_cons_self
  obtain ⟨_, _, _, flag, _⟩ := coverage.status_step quietEdge
  rw [Buffer.run_append] at after
  have collision : (buffer.run burst inputs).core.collision = true := by
    have unwrapped : (buffer.run burst inputs).core.status.wrWrappedI = false := before
    simpa [unwrapped] using flag.symm.trans after
  obtain ⟨full, silent⟩ :=
    coverage.at_collision positive low divides quietEdge.1 before collision
  rw [Buffer.writes_append, List.length_append, full]
  rw [Buffer.writes, Buffer.busLog, Core.busLog, Buffer.edges, Clocked.feed, Clocked.feed,
    Clocked.log_cons, Clocked.log_nil, List.append_nil, silent, List.length_nil, Nat.add_zero]

end Law

/-- The law of a write run: an idle buffer, one start, and then any schedule of the input FIFO
and of the ready lines. -/
theorem write_coverage {k : Nat} (inMemory : k < w) (buffer : Buffer w) (idle : buffer.core.Idle)
    (unpulsed : buffer.wrStartConverter.outProc.pulseout = false) (inputs : List (Ports w))
    (start : Edge w) (one : OneWriteStart (buffer.edges (2 ^ k) inputs) start)
    (low : start.wrAddrBegin.toNat < 2 ^ (w - 1)) :
    WriteCoverage (2 ^ k) buffer inputs start := by
  have positive : 0 < w := Nat.zero_lt_of_lt inMemory
  have divides : 2 ^ k ∣ 2 ^ (w - 1) := Nat.pow_dvd_pow 2 (Nat.le_sub_one_of_lt inMemory)
  have coverage := one.coverage positive divides idle unpulsed low
  constructor
  · intro i accepted
    have named : (buffer.writes (2 ^ k) inputs)[i] =
        memoryAddress (burstAddress (2 ^ k) start.wrAddrBegin i) := by
      rw [List.getElem_of_eq coverage.run.commands_eq accepted, getElem_commandAddresses]
    rw [named, memoryAddress_burstAddress]
  · exact fun wrapped => (coverage.wrapped wrapped).1
  · exact fun next quiet before after =>
      coverage.wraps_at positive low divides quiet before after
  · exact fun full first second quiet =>
      coverage.wraps_within positive low divides quiet full
  · intro noWrap
    refine ⟨?_, ?_, ?_, ?_⟩
    · cases wrapped : (buffer.run (2 ^ k) inputs).core.status.wrWrappedI with
      | false => exact (coverage.unwrapped wrapped).2.1
      | true => exact ((coverage.wrapped wrapped).2.2 noWrap).le
    · intro ended
      cases wrapped : (buffer.run (2 ^ k) inputs).core.status.wrWrappedI with
      | false => exact absurd (coverage.unwrapped wrapped).1 (by simpa [Core.wrBusy] using ended)
      | true => exact (coverage.wrapped wrapped).2.2 noWrap
    · intro full first second quiet
      have after := coverage.later positive low divides quiet
      have flag := coverage.wraps_within positive low divides quiet full
      exact (after.wrapped flag).2.1.trans noWrap
    · intro full
      have lap := commandAddresses_lap divides start.wrAddrBegin
      rwa [← full, ← coverage.run.commands_eq] at lap
  · intro wrap
    refine ⟨?_, fun wrapped later quiet =>
      coverage.wrapped_later positive low divides quiet wrapped⟩
    cases wrapped : (buffer.run (2 ^ k) inputs).core.status.wrWrappedI with
    | false => exact (coverage.unwrapped wrapped).1
    | true => exact (coverage.wrapped wrapped).2.1.trans wrap

/-- A memory of four addresses and bursts of two: from address 2 the run writes 2 and 0, and
stops. -/
theorem write_coverage_two_bursts :
    (Buffer.powerOn : Buffer 3).writes 2 (Buffer.startAndRun 13 0) = [2, 0] ∧
      ((Buffer.powerOn : Buffer 3).run 2 (Buffer.startAndRun 13 0)).core.wrBusy = false ∧
      WriteCoverage 2 (Buffer.powerOn : Buffer 3) (Buffer.startAndRun 13 0) Buffer.startEdge :=
  ⟨by decide, by decide,
    write_coverage (k := 1) (by decide) Buffer.powerOn Core.idle_powerOn rfl
      (Buffer.startAndRun 13 0) Buffer.startEdge
      ⟨(Buffer.powerOn.edges 2 (Buffer.startAndRun 13 0)).take 4,
        (Buffer.powerOn.edges 2 (Buffer.startAndRun 13 0)).drop 5,
        by decide, by decide, by decide, by decide⟩
      (by decide)⟩

end K71GbE.Sdram
