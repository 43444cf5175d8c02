/-
This file is about the command bus that the write FSM and the read FSM of
`sdram_buffer_fifo` share.

The opcode and the address follow `wr_writing`, the enable is the disjunction of
two registers. An edge may put a command on the bus at which the run that it
belongs to ends or gives way to another one. Such an orphan stands on the bus in
the next clock, with the other machine's opcode and address or for a read address
the run has left behind, and a memory controller that is ready accepts it.
Ownership holds exactly in the runs in which `APP_RDY` is low then. The bus carries
a read address without its top bit, so this is about reads that stay within the
memory: beyond its end an address comes back below the begin.
-/

import K71GbE.Sdram.Steps

namespace K71GbE.Sdram

variable {w : Nat} {burst : Nat} {core : Core w} {edge : Edge w}

/-! ### Ownership of a command -/

/-- The bounds that a read start gives its run. -/
def Edge.readStart (edge : Edge w) : List (BitVec w × BitVec w) :=
  if edge.inReset = false ∧ edge.rdStartPulse = true then [(edge.rdAddrBegin, edge.rdAddrEnd)]
  else []

/-- A command accepted at an edge belongs to one machine: its enable, its state, its opcode and
its address. `latest` holds the bounds of the latest read start, and a READ carries an address
between them. -/
structure Owned (core : Core w) (edge : Edge w) (latest : Option (BitVec w × BitVec w)) :
    Prop where
  read : core.readAccepted edge.toPorts = true →
    core.reader.readState = .R2 ∧ core.reader.rdAppEn = true ∧ core.writer.wrAppEn = false ∧
      core.rdBusy = true ∧ core.appAddr = memoryAddress core.reader.rdAddrI ∧
      ∃ bounds, latest = some bounds ∧ bounds.1 ≤ core.appAddr ∧ core.appAddr < bounds.2
  write : core.writeAccepted edge.toPorts = true →
    core.writer.writeState = .W2 ∧ core.writer.wrAppEn = true ∧ core.reader.rdAppEn = false ∧
      core.wrBusy = true ∧ core.appAddr = memoryAddress core.writer.wrAddrI

/-! ### Orphans -/

/-- The write FSM leaves this edge with its enable raised. -/
def Core.RaisesWrite (core : Core w) (edge : Edge w) : Prop :=
  core.writer.writeState = .W1 ∧ edge.appWdfRdy = true ∨
    core.writer.writeState = .W2 ∧ edge.appRdy = false

/-- At this edge the read run reaches its end address, or a start comes. -/
def Core.ReadTurns (core : Core w) (edge : Edge w) : Prop :=
  edge.rdStartPulse = true ∨ edge.wrStartPulse = true ∨ core.readEnd = true

/-- The write run is over before this edge or stops at it, or a start comes. -/
def Core.WriteTurns (core : Core w) (edge : Edge w) : Prop :=
  core.status.wrWriting = false ∨ edge.rdStartPulse = true ∨ edge.wrStartPulse = true ∨
    core.stopReached = true ∨ core.autoStop = true

/-- `APP_RDY` is low in the next clock and, if that one is in a reset, up to the first clock
after it. -/
def HeldOff : List (Ports w) → Prop
  | [] => True
  | ports :: later => ports.appRdy = false ∧ (ports.inReset = true → HeldOff later)

/-- What an edge outside of a reset puts on the bus for a run that turns is held off. A reset
clears the enable of the read FSM, and not the one of the write FSM. -/
def Core.OrphansHeldOff (core : Core w) (edge : Edge w) (later : List (Ports w)) : Prop :=
  edge.inReset = false →
    (core.RaisesRead edge ∧ core.ReadTurns edge →
        ∀ ports ∈ later.head?, ports.inReset = false → ports.appRdy = false) ∧
      (core.RaisesWrite edge →
        core.WriteTurns edge ∨ (∃ ports ∈ later.head?, ports.inReset = true) → HeldOff later)

/-- A read start begins at the first address, or its range lies within the memory, or is empty. -/
def WithinMemory (bounds : BitVec w × BitVec w) : Prop :=
  bounds.1 = 0 ∨ bounds.2.toNat ≤ 2 ^ (w - 1) ∨ bounds.2 ≤ bounds.1

instance (core : Core w) (edge : Edge w) : Decidable (core.RaisesWrite edge) :=
  inferInstanceAs (Decidable ((_ ∧ _) ∨ (_ ∧ _)))

instance (core : Core w) (edge : Edge w) : Decidable (core.ReadTurns edge) :=
  inferInstanceAs (Decidable (_ ∨ _ ∨ _))

instance (core : Core w) (edge : Edge w) : Decidable (core.WriteTurns edge) :=
  inferInstanceAs (Decidable (_ ∨ _ ∨ _ ∨ _ ∨ _))

instance decidableHeldOff : (later : List (Ports w)) → Decidable (HeldOff later)
  | [] => inferInstanceAs (Decidable True)
  | _ :: later =>
    have := decidableHeldOff later
    inferInstanceAs (Decidable (_ ∧ (_ → HeldOff later)))

instance (core : Core w) (edge : Edge w) (later : List (Ports w)) :
    Decidable (core.OrphansHeldOff edge later) :=
  inferInstanceAs (Decidable (_ → _ ∧ _))

instance (bounds : BitVec w × BitVec w) : Decidable (WithinMemory bounds) :=
  inferInstanceAs (Decidable (_ ∨ _ ∨ _))

/-! ### Stale enables -/

/-- The enable of the write FSM is high outside its command state, or after it has lost the
bus. -/
def Core.StaleWrite (core : Core w) : Prop :=
  core.writer.wrAppEn = true ∧
    ¬(core.writer.writeState = .W2 ∧ core.status.wrWriting = true)

/-- The same for the read FSM. -/
def Core.StaleRead (core : Core w) : Prop :=
  core.reader.rdAppEn = true ∧
    ¬(core.reader.readState = .R2 ∧ core.status.rdReading = true)

/-- The memory controller is not ready while an enable is stale. -/
def Core.StaleHeldOff (core : Core w) (ports : Ports w) : Prop :=
  (core.settle ports).StaleWrite ∨ (core.settle ports).StaleRead → ports.appRdy = false

/-- The enables at the beginning of a schedule are held off where they are, or become, stale. -/
def Core.EntersHeldOff (core : Core w) (inputs : List (Ports w)) : Prop :=
  (core.StaleRead → ∀ ports ∈ inputs.head?, ports.inReset = false → ports.appRdy = false) ∧
    (core.writer.wrAppEn = true →
      core.StaleWrite ∨ (∃ ports ∈ inputs.head?, ports.inReset = true) → HeldOff inputs)

/-! ### What an edge leaves on the bus -/

theorem readFsm_of_raises (raises : core.RaisesRead edge) :
    readFsm burst core edge = ⟨core.reader.rdAddrI, true, .R2⟩ := by
  rcases raises.2 with ⟨state, readable⟩ | ⟨state, stall⟩
  · rw [readFsm_of_R1 burst edge state, if_pos readable]
  · rw [readFsm_of_R2 burst edge state, stall, if_neg Bool.false_ne_true]

theorem rdAppEn_of_raises (raises : core.RaisesRead edge) :
    (readProcess burst core edge).rdAppEn = true := by
  cases start : edge.rdStartPulse with
  | false => rw [readProcess_of_reading raises.1 start, readFsm_of_raises raises]
  | true => rw [readProcess_of_start start, raises.1, readFsm_of_raises raises, Bool.and_self]

/-- Outside of a start, the write FSM raises its enable towards its command state, or gives the
command up. -/
theorem writeFsm_of_raises (raises : core.RaisesWrite edge)
    (writing : core.status.wrWriting = true) : (writeFsm burst core edge).writeState = .W2 := by
  have moved := writeFsm_step burst core edge
  generalize writeFsm burst core edge = next at moved
  unfold Core.RaisesWrite at raises
  cases moved with
  | beat | holdCommand => rfl
  | abandon _ _ ended => exact absurd (ended.symm.trans writing) Bool.false_ne_true
  | wait state | present state => simp [state] at raises
  | holdBeat state stall => simp [state, stall] at raises
  | command state ready => simp [state, ready] at raises
  | others state => rcases state with state | state <;> simp [state] at raises

theorem wrAppEn_writeProcess :
    (writeProcess burst core edge).wrAppEn = true ↔ core.RaisesWrite edge := by
  have enable : (writeProcess burst core edge).wrAppEn = (writeFsm burst core edge).wrAppEn := by
    cases start : edge.wrStartPulse with
    | false => rw [writeProcess_of_noStart start]
    | true => rw [writeProcess_of_start start]
  rw [enable]
  have moved := writeFsm_step burst core edge
  generalize writeFsm burst core edge = next at moved
  unfold Core.RaisesWrite
  cases moved with
  | beat state ready => simp [state, ready]
  | holdCommand state stall | abandon state stall => simp [state, stall]
  | wait state | present state => simp [state]
  | holdBeat state stall => simp [state, stall]
  | command state ready => simp [state, ready]
  | others state => rcases state with state | state <;> simp [state]

section Next

variable (running : edge.inReset = false)

include running

theorem wrAppEn_next : (core.clock burst edge).writer.wrAppEn = true ↔ core.RaisesWrite edge := by
  rw [Core.clock_of_running running]
  exact wrAppEn_writeProcess

/-- A READ is stale exactly if it has been put on the bus as its run turned. -/
theorem staleRead_next :
    (core.clock burst edge).StaleRead ↔ core.RaisesRead edge ∧ core.ReadTurns edge := by
  rw [Core.clock_of_running running, Core.StaleRead]
  by_cases raises : core.RaisesRead edge
  · simp only [rdAppEn_of_raises raises, raises, true_and, statusProcess_eq, Core.ReadTurns]
    cases start : edge.rdStartPulse with
    | true => simp [readProcess_of_start start]
    | false =>
      rw [readProcess_of_reading raises.1 start, readFsm_of_raises raises]
      cases edge.wrStartPulse <;> cases core.readEnd <;> simp [raises.1]
  · simp [rdAppEn_of_not_raises raises, raises]

/-- The same for a WRITE. -/
theorem staleWrite_next :
    (core.clock burst edge).StaleWrite ↔ core.RaisesWrite edge ∧ core.WriteTurns edge := by
  rw [Core.clock_of_running running, Core.StaleWrite, wrAppEn_writeProcess]
  refine and_congr_right fun raises => ?_
  simp only [statusProcess_eq, Core.WriteTurns]
  cases start : edge.wrStartPulse with
  | true => simp [writeProcess_of_start start]
  | false =>
    rw [writeProcess_of_noStart start]
    cases writing : core.status.wrWriting with
    | false => simp
    | true =>
      rw [writeFsm_of_raises raises writing]
      cases edge.rdStartPulse <;> cases core.stopReached <;> cases core.autoStop <;> simp

theorem orphansHeldOff_iff (burst : Nat) (later : List (Ports w)) :
    core.OrphansHeldOff edge later ↔ (core.clock burst edge).EntersHeldOff later := by
  rw [Core.OrphansHeldOff, Core.EntersHeldOff, staleRead_next running, wrAppEn_next running,
    staleWrite_next running]
  simp only [running, forall_const]
  exact and_congr_right fun _ => forall_congr' fun raises => by simp only [raises, true_and]

end Next

/-- In a reset the enable of the write FSM is kept, and stale. -/
theorem staleWrite_asyncReset : core.asyncReset.StaleWrite ↔ core.writer.wrAppEn = true := by
  simp [Core.StaleWrite, Core.asyncReset]

theorem staleRead_asyncReset : ¬core.asyncReset.StaleRead := by
  simp [Core.StaleRead, Core.asyncReset]

theorem entersHeldOff_asyncReset (later : List (Ports w)) :
    core.asyncReset.EntersHeldOff later ↔ (core.writer.wrAppEn = true → HeldOff later) := by
  rw [Core.EntersHeldOff, staleWrite_asyncReset]
  constructor
  · rintro ⟨_, write⟩ enable
    exact write enable (Or.inl enable)
  · intro heldOff
    exact ⟨fun stale => absurd stale staleRead_asyncReset, fun enable _ => heldOff enable⟩

/-- What an edge leaves in force requires of the schedule behind it that the orphans are held off,
or in a reset what was in force before. -/
theorem entersHeldOff_clock (burst : Nat) (core : Core w) (edge : Edge w)
    (later : List (Ports w)) :
    (core.clock burst edge).EntersHeldOff later ↔
      (edge.inReset = true → core.asyncReset.EntersHeldOff later) ∧
        core.OrphansHeldOff edge later := by
  cases reset : edge.inReset with
  | true =>
    rw [Core.clock_of_reset reset]
    simp [Core.OrphansHeldOff, reset]
  | false =>
    rw [orphansHeldOff_iff reset burst]
    simp

/-- What the enables in force require of a schedule, at its first clock and beyond it. -/
theorem entersHeldOff_cons (ports : Ports w) (later : List (Ports w)) :
    core.EntersHeldOff (ports :: later) ↔
      core.StaleHeldOff ports ∧ (ports.inReset = true → core.asyncReset.EntersHeldOff later) := by
  simp only [Core.EntersHeldOff.eq_1 core, Core.StaleHeldOff, HeldOff, List.head?_cons,
    Option.mem_some_iff]
  cases reset : ports.inReset with
  | true =>
    rw [Core.settle_of_reset reset, staleWrite_asyncReset, entersHeldOff_asyncReset]
    simp only [staleRead_asyncReset, or_false, forall_const, exists_eq_left', reset, or_true]
    constructor
    · rintro ⟨_, write⟩
      exact ⟨fun enable => (write enable).1, fun enable => (write enable).2⟩
    · rintro ⟨first, rest⟩
      exact ⟨fun _ _ equal => by simp [← equal, reset], fun enable => ⟨first enable, rest enable⟩⟩
  | false =>
    rw [Core.settle_of_running reset]
    simp only [reset, exists_eq_left', Bool.false_eq_true, or_false, false_implies, and_true,
      forall_eq', forall_const]
    constructor
    · rintro ⟨read, write⟩ (stale | stale)
      · exact write stale.1 stale
      · exact read stale
    · intro heldOff
      exact ⟨fun stale => heldOff (Or.inr stale), fun _ stale => heldOff (Or.inl stale)⟩

/-! ### The invariant -/

/-- At most one machine is running, and a read run is inside its bounds, which lie within the
memory. -/
structure OwnershipRun (core : Core w) (latest : Option (BitVec w × BitVec w)) : Prop where
  exclusive : core.status.rdReading = true → core.status.wrWriting = false
  bounds : core.status.rdReading = true →
    latest = some (core.status.rdAddrBeginReg, core.status.rdAddrEndReg)
  within : core.status.rdReading = true →
    WithinMemory (core.status.rdAddrBeginReg, core.status.rdAddrEndReg)
  above : core.status.rdReading = true → core.status.rdAddrBeginReg ≤ core.reader.rdAddrI
  below : core.status.rdReading = true →
    core.reader.readState = .R2 ∨ core.reader.readState = .R3 →
      core.reader.rdAddrI < core.status.rdAddrEndReg

theorem OwnershipRun.ofNotReading {latest : Option (BitVec w × BitVec w)}
    (idle : core.status.rdReading = false) : OwnershipRun core latest := by
  constructor <;> simp [idle]

/-- An address inside its bounds is carried as one inside its bounds. -/
theorem WithinMemory.carried {bounds : BitVec w × BitVec w} (within : WithinMemory bounds)
    {address : BitVec w} (above : bounds.1 ≤ address) (below : address < bounds.2) :
    bounds.1 ≤ memoryAddress address ∧ memoryAddress address < bounds.2 := by
  simp only [BitVec.le_def, BitVec.lt_def, memoryAddress_toNat] at above below ⊢
  refine ⟨?_, (Nat.mod_le _ _).trans_lt below⟩
  rcases within with zero | inMemory | empty
  · simp [zero]
  · rwa [Nat.mod_eq_of_lt (below.trans_le inMemory)]
  · exact absurd below (((BitVec.le_def.mp empty).trans above).not_gt)

/-- Within the memory the advance does not wrap. -/
theorem le_advance (short : burst ≤ 2 ^ (w - 1)) {address : BitVec w}
    (inside : address.toNat < 2 ^ (w - 1)) : address ≤ advance burst address := by
  rw [BitVec.le_def, advance, BitVec.toNat_add, BitVec.toNat_ofNat]
  cases w with
  | zero => simp [BitVec.of_length_zero]
  | succ n =>
    rw [Nat.add_sub_cancel] at short inside
    have double : 2 ^ (n + 1) = 2 ^ n + 2 ^ n := by rw [Nat.pow_succ, Nat.mul_two]
    rw [Nat.mod_eq_of_lt (show burst < 2 ^ (n + 1) by omega), Nat.mod_eq_of_lt (by omega)]
    exact Nat.le_add_right _ _

section Step

variable {latest : Option (BitVec w × BitVec w)}

/-- Without a read start, a run that is still reading was reading and had not reached its end. -/
theorem reading_before (noStart : edge.rdStartPulse = false)
    (reading : (statusProcess core edge).rdReading = true) :
    core.status.rdReading = true ∧ edge.wrStartPulse = false ∧
      core.reader.rdAddrI < core.status.rdAddrEndReg := by
  rw [statusProcess_eq] at reading
  cases stop : edge.wrStartPulse <;> cases ended : core.readEnd <;>
    simp_all [Core.readEnd]

/-- A read start opens a run at its begin address. -/
theorem OwnershipRun.ofStart (running : edge.inReset = false) (start : edge.rdStartPulse = true)
    (within : WithinMemory (edge.rdAddrBegin, edge.rdAddrEnd)) :
    OwnershipRun (core.clock burst edge) (some (edge.rdAddrBegin, edge.rdAddrEnd)) := by
  rw [Core.clock_of_running running, statusProcess_eq, readProcess_of_start start]
  constructor <;> simp [start, within]

/-- An edge without a read start keeps the run inside its bounds. -/
theorem OwnershipRun.goOn (run : OwnershipRun core latest) (running : edge.inReset = false)
    (noStart : edge.rdStartPulse = false) (short : burst ≤ 2 ^ (w - 1)) :
    OwnershipRun (core.clock burst edge) latest := by
  rw [Core.clock_of_running running]
  cases after : (statusProcess core edge).rdReading with
  | false => exact .ofNotReading after
  | true =>
    obtain ⟨reading, noWrite, inside⟩ := reading_before noStart after
    have beginReg : (statusProcess core edge).rdAddrBeginReg = core.status.rdAddrBeginReg := by
      simp [statusProcess_eq, noStart]
    have endReg : (statusProcess core edge).rdAddrEndReg = core.status.rdAddrEndReg := by
      simp [statusProcess_eq, noStart]
    have notWriting : (statusProcess core edge).wrWriting = false := by
      simp [statusProcess_eq, noStart, noWrite, run.exclusive reading]
    rw [readProcess_of_reading reading noStart]
    have moved := readFsm_step burst core edge
    generalize readFsm burst core edge = next at moved
    refine ⟨fun _ => notWriting, fun _ => ?_, fun _ => ?_, fun _ => ?_, fun _ state => ?_⟩
    · simp only [beginReg, endReg]
      exact run.bounds reading
    · simp only [beginReg, endReg]
      exact run.within reading
    · simp only [beginReg]
      cases moved with
      | data =>
        rcases run.within reading with zero | inMemory | empty
        · rw [show core.status.rdAddrBeginReg = 0 from zero]
          exact BitVec.le_def.mpr (by simp)
        · exact BitVec.le_trans (run.above reading)
            (le_advance short ((BitVec.lt_def.mp inside).trans_le inMemory))
        · exact absurd inside
            (BitVec.not_lt.mpr (BitVec.le_trans empty (run.above reading)))
      | rest | hold | issue | holdCommand | command | await => exact run.above reading
    · simp only [endReg]
      cases moved with
      | rest | hold | data => simp at state
      | issue | holdCommand | command | await => exact inside

theorem OwnershipRun.step (run : OwnershipRun core latest) (short : burst ≤ 2 ^ (w - 1))
    (within : ∀ bounds ∈ edge.readStart, WithinMemory bounds) :
    OwnershipRun (core.clock burst edge) (edge.readStart.getLast?.or latest) := by
  cases reset : edge.inReset with
  | true =>
    rw [Core.clock_of_reset reset]
    exact .ofNotReading rfl
  | false =>
    cases start : edge.rdStartPulse with
    | true =>
      rw [Edge.readStart, if_pos ⟨reset, start⟩] at within ⊢
      exact .ofStart reset start (within _ List.mem_cons_self)
    | false =>
      rw [Edge.readStart, if_neg (by simp [start])]
      exact run.goOn reset start short

end Step

/-! ### When a command is owned -/

/-- The settled state of a run is a state of the run. -/
theorem OwnershipRun.settle {latest : Option (BitVec w × BitVec w)}
    (run : OwnershipRun core latest) (ports : Ports w) :
    OwnershipRun (core.settle ports) latest := by
  cases reset : ports.inReset with
  | true =>
    rw [Core.settle_of_reset reset]
    exact .ofNotReading rfl
  | false => rwa [Core.settle_of_running reset]

/-- An enable that is not stale is raised by a machine in its command state that has the bus. -/
theorem read_of_fresh (fresh : ¬core.StaleRead) (enable : core.reader.rdAppEn = true) :
    core.reader.readState = .R2 ∧ core.status.rdReading = true :=
  by_contra fun outside => fresh ⟨enable, outside⟩

theorem write_of_fresh (fresh : ¬core.StaleWrite) (enable : core.writer.wrAppEn = true) :
    core.writer.writeState = .W2 ∧ core.status.wrWriting = true :=
  by_contra fun outside => fresh ⟨enable, outside⟩

/-- A stale enable that meets a ready memory controller is a command nobody owns. -/
theorem Owned.holdsOff {latest : Option (BitVec w × BitVec w)} (owned : Owned core edge latest)
    (stale : core.StaleWrite ∨ core.StaleRead) : edge.appRdy = false := by
  by_contra ready
  rw [Bool.not_eq_false] at ready
  have enabled : core.appEn = true := by
    rcases stale with ⟨enable, _⟩ | ⟨enable, _⟩ <;> simp [Core.appEn, enable]
  cases writing : core.status.wrWriting with
  | true =>
    obtain ⟨state, _, noRead, _⟩ := owned.write (by
      simp [Core.writeAccepted, Core.commandAccepted, Core.appCmd, enabled, ready, writing])
    rcases stale with ⟨_, outside⟩ | ⟨enable, _⟩
    · exact outside ⟨state, writing⟩
    · simp [noRead] at enable
  | false =>
    obtain ⟨state, _, noWrite, reading, _⟩ := owned.read (by
      simp [Core.readAccepted, Core.commandAccepted, Core.appCmd, enabled, ready, writing])
    rcases stale with ⟨enable, _⟩ | ⟨_, outside⟩
    · simp [noWrite] at enable
    · exact outside ⟨state, reading⟩

/-- In a run inside its bounds every command that is not a stale enable is owned. -/
theorem OwnershipRun.owned {latest : Option (BitVec w × BitVec w)}
    (run : OwnershipRun core latest)
    (heldOff : core.StaleWrite ∨ core.StaleRead → edge.appRdy = false) :
    Owned core edge latest := by
  have fresh (ready : edge.appRdy = true) : ¬core.StaleWrite ∧ ¬core.StaleRead :=
    not_or.mp fun stale => by simp [heldOff stale] at ready
  constructor
  · intro accepted
    simp only [Core.readAccepted, Core.commandAccepted, Bool.and_eq_true, beq_iff_eq] at accepted
    obtain ⟨⟨enabled, ready⟩, command⟩ := accepted
    have notWriting : core.status.wrWriting = false := by
      by_contra writing
      rw [Bool.not_eq_false] at writing
      simp [Core.appCmd, writing] at command
    have noWrite : core.writer.wrAppEn = false := by
      by_contra enable
      rw [Bool.not_eq_false] at enable
      simp [(write_of_fresh (fresh ready).1 enable).2] at notWriting
    have enable : core.reader.rdAppEn = true := by simpa [Core.appEn, noWrite] using enabled
    obtain ⟨state, reading⟩ := read_of_fresh (fresh ready).2 enable
    have carried : core.appAddr = memoryAddress core.reader.rdAddrI := by
      simp [Core.appAddr, notWriting]
    have inBounds := (run.within reading).carried (run.above reading)
      (run.below reading (Or.inl state))
    rw [← carried] at inBounds
    exact ⟨state, enable, noWrite, reading, carried, _, run.bounds reading, inBounds⟩
  · intro accepted
    simp only [Core.writeAccepted, Core.commandAccepted, Bool.and_eq_true, beq_iff_eq] at accepted
    obtain ⟨⟨enabled, ready⟩, command⟩ := accepted
    have writing : core.status.wrWriting = true := by
      by_contra ended
      rw [Bool.not_eq_true] at ended
      simp [Core.appCmd, ended] at command
    have noRead : core.reader.rdAppEn = false := by
      by_contra enable
      rw [Bool.not_eq_false] at enable
      simp [run.exclusive (read_of_fresh (fresh ready).2 enable).2] at writing
    have enable : core.writer.wrAppEn = true := by simpa [Core.appEn, noRead] using enabled
    exact ⟨(write_of_fresh (fresh ready).1 enable).1, enable, noRead, writing,
      by simp [Core.appAddr, writing]⟩

/-! ### Ownership over a run -/

namespace Buffer

/-- The read starts delivered during a run of the entity. -/
def readStarts (burst : Nat) (buffer : Buffer w) (inputs : List (Ports w)) :
    List (BitVec w × BitVec w) :=
  Clocked.log (clock burst) (fun buffer ports => (buffer.edge ports).readStart) buffer inputs

/-- Every command accepted during a run of the entity is owned. -/
def CommandsOwned (burst : Nat) (buffer : Buffer w) (inputs : List (Ports w)) : Prop :=
  ∀ seen ports later, inputs = seen ++ ports :: later →
    Owned ((buffer.run burst seen).core.settle ports) ((buffer.run burst seen).edge ports)
      (buffer.readStarts burst seen).getLast?

/-- Along a run every orphan is held off. -/
def OrphansHeldOff (burst : Nat) (buffer : Buffer w) (inputs : List (Ports w)) : Prop :=
  Clocked.AlongRest (clock burst)
    (fun buffer ports later => buffer.core.OrphansHeldOff (buffer.edge ports) later) buffer inputs

/-- No read start of a run asks for a range that passes the end of the memory and does not begin
at its first address. -/
def ReadsWithinMemory (burst : Nat) (buffer : Buffer w) (inputs : List (Ports w)) : Prop :=
  Clocked.Along (clock burst)
    (fun buffer ports => ∀ bounds ∈ (buffer.edge ports).readStart, WithinMemory bounds) buffer
    inputs

instance (burst : Nat) (buffer : Buffer w) (inputs : List (Ports w)) :
    Decidable (buffer.OrphansHeldOff burst inputs) :=
  Clocked.decidableAlongRest _ _ _ _

instance (burst : Nat) (buffer : Buffer w) (inputs : List (Ports w)) :
    Decidable (buffer.ReadsWithinMemory burst inputs) :=
  have (buffer : Buffer w) (ports : Ports w) :
      Decidable (∀ bounds ∈ (buffer.edge ports).readStart, WithinMemory bounds) :=
    List.decidableBAll _ _
  Clocked.decidableAlong _ _ _ _

/-- Stale enables are held off along a run if those in force at its beginning are, and the orphans
that it leaves. -/
theorem staleHeldOff_iff (burst : Nat) (buffer : Buffer w) (inputs : List (Ports w)) :
    Clocked.Along (clock burst) (fun buffer ports => buffer.core.StaleHeldOff ports) buffer inputs ↔
      buffer.core.EntersHeldOff inputs ∧ buffer.OrphansHeldOff burst inputs := by
  induction inputs generalizing buffer with
  | nil => simp [Clocked.Along, OrphansHeldOff, Clocked.AlongRest, Core.EntersHeldOff, HeldOff]
  | cons ports later inductionHypothesis =>
    have next := entersHeldOff_clock burst buffer.core (buffer.edge ports) later
    rw [Clocked.Along, inductionHypothesis, entersHeldOff_cons, and_assoc]
    refine and_congr_right fun _ => ?_
    show (buffer.core.clock burst (buffer.edge ports)).EntersHeldOff later ∧ _ ↔
      _ ∧ buffer.core.OrphansHeldOff (buffer.edge ports) later ∧
        (buffer.clock burst ports).OrphansHeldOff burst later
    rw [next, and_assoc]
    rfl

end Buffer

theorem OwnershipRun.run {inputs : List (Ports w)} (short : burst ≤ 2 ^ (w - 1))
    (within : Buffer.powerOn.ReadsWithinMemory burst inputs) :
    OwnershipRun (Buffer.powerOn.run burst inputs).core
      (Buffer.powerOn.readStarts burst inputs).getLast? := by
  have start : OwnershipRun (Buffer.powerOn : Buffer w).core
      ([] : List (BitVec w × BitVec w)).getLast? :=
    .ofNotReading rfl
  refine Clocked.log_invariant (fun buffer starts => OwnershipRun buffer.core starts.getLast?)
    (fun buffer ports starts run within => ?_) start within
  rw [List.getLast?_append]
  exact run.step short within

/-- From power-on, and over every interleaving of starts, stops, resets and schedules, as long as
no range that is read is folded below its begin address: the commands on the shared bus are owned
exactly when `APP_RDY` is low behind every edge that puts a command on it for a run that turns
there. -/
theorem command_ownership (burst : Nat) (inputs : List (Ports w)) (short : burst ≤ 2 ^ (w - 1))
    (within : Buffer.powerOn.ReadsWithinMemory burst inputs) :
    Buffer.powerOn.CommandsOwned burst inputs ↔ Buffer.powerOn.OrphansHeldOff burst inputs := by
  have enters : (Buffer.powerOn : Buffer w).core.EntersHeldOff inputs :=
    ⟨fun stale => absurd stale.1 Bool.false_ne_true, fun enable => absurd enable Bool.false_ne_true⟩
  rw [← and_iff_right enters (b := Buffer.OrphansHeldOff _ _ _), ← Buffer.staleHeldOff_iff,
    Clocked.along_iff_steps]
  refine forall_congr' fun seen => forall_congr' fun ports => forall_congr' fun later =>
    forall_congr' fun split => ?_
  have ran : OwnershipRun (Buffer.powerOn.run burst seen).core
      (Buffer.powerOn.readStarts burst seen).getLast? := by
    rw [split] at within
    exact .run short ((Clocked.along_append _ _ _ _ _).mp within).1
  exact ⟨fun owned => owned.holdsOff, fun heldOff => (ran.settle ports).owned heldOff⟩

/-- A read of one burst from address 0; after its command `APP_RDY` is at the given level. -/
def Buffer.readOneBurst (ready : Bool) : List (Ports 3) :=
  { Ports.low with rdStart := true } ::
    (List.replicate 6 { Ports.low with appRdy := true, rdAddrEnd := 2 } ++
      { Ports.low with appRdy := ready, appRdDataValid := true } ::
        List.replicate 3 { Ports.low with appRdy := ready })

/-- With the memory controller held off after the last burst, the command is owned. -/
theorem command_ownership_one_burst :
    (Buffer.powerOn : Buffer 3).busLog 2 (Buffer.readOneBurst false) = [.read 0] ∧
      (Buffer.powerOn : Buffer 3).CommandsOwned 2 (Buffer.readOneBurst false) :=
  ⟨by decide,
    (command_ownership 2 (Buffer.readOneBurst false) (by decide) (by decide)).mpr (by decide)⟩

/-- A read of the addresses 2 to 5, beyond a memory of four. -/
def Buffer.readBeyond : List (Ports 3) :=
  { Ports.low with rdStart := true } ::
    (List.replicate 6 { Ports.low with appRdy := true, rdAddrBegin := 2, rdAddrEnd := 6 } ++
      { Ports.low with appRdy := true, appRdDataValid := true } ::
        List.replicate 2 { Ports.low with appRdy := true })

/-- With a ready memory controller a second READ is accepted, at the end address; and without an
orphan, beyond the memory, a READ of the first address. -/
theorem command_ownership_overrun :
    ((Buffer.powerOn : Buffer 3).busLog 2 (Buffer.readOneBurst true) = [.read 0, .read 2] ∧
      ¬(Buffer.powerOn : Buffer 3).CommandsOwned 2 (Buffer.readOneBurst true)) ∧
    (Buffer.powerOn : Buffer 3).busLog 2 Buffer.readBeyond = [.read 2, .read 0] ∧
      (Buffer.powerOn : Buffer 3).OrphansHeldOff 2 Buffer.readBeyond ∧
      ¬(Buffer.powerOn : Buffer 3).CommandsOwned 2 Buffer.readBeyond := by
  refine ⟨⟨by decide, fun owned => ?_⟩, by decide, by decide, fun owned => ?_⟩
  · have overrun := (owned ((Buffer.readOneBurst true).take 9) { Ports.low with appRdy := true }
      [{ Ports.low with appRdy := true }] rfl).read (by decide)
    exact absurd overrun.2.2.2.1 (by decide)
  · have folded := (owned (Buffer.readBeyond.take 9) { Ports.low with appRdy := true } []
      rfl).read (by decide)
    obtain ⟨bounds, latest, above, _⟩ := folded.2.2.2.2.2
    cases latest
    exact absurd above (by decide)

end K71GbE.Sdram
