/-
This file compares `sdram_buffer_fifo` after `CTRL_RESET` with the buffer after
power-on.

The reset branches of the three processes leave out the four strobes of the
write process and the trigger pointer, and the pulse converters listen to
`RESET` only. None of these registers is dead: each can be told from its
power-on value by what the entity does after the release. So the reset is
complete exactly when all of them already hold their power-on values, or, in a
converter, nothing that a later request could meet.
-/

import K71GbE.Sdram.WriteRun

namespace K71GbE.Sdram

variable {w : Nat} {burst : Nat} {core : Core w} {edge : Edge w} {buffer : Buffer w}

/-! ### Observations -/

/-- What can be seen of the entity at one clock: the command and the beat presented to the
memory controller, the pop of the input FIFO and the status outputs. -/
structure Observation (w : Nat) where
  command : Option (Command × BitVec w)
  appWdfWren : Bool
  appWdfEnd : Bool
  indataFifoRden : Bool
  wrBusy : Bool
  wrWrapped : Bool
  rdBusy : Bool
  triggerPointer : BitVec w
deriving DecidableEq, Repr

def Core.observe (core : Core w) : Observation w where
  command := if core.appEn then some (core.appCmd, core.appAddr) else none
  appWdfWren := core.writer.wrWdfWren
  appWdfEnd := core.writer.wrWdfEnd
  indataFifoRden := core.writer.indataFifoRden
  wrBusy := core.wrBusy
  wrWrapped := core.wrWrapped
  rdBusy := core.rdBusy
  triggerPointer := core.triggerPointer

def Buffer.observe (buffer : Buffer w) (ports : Ports w) : Observation w :=
  (buffer.core.settle ports).observe

/-- No command and no beat is presented, and no word is popped. -/
def Observation.Silent (seen : Observation w) : Prop :=
  seen.command = none ∧ seen.appWdfWren = false ∧ seen.indataFifoRden = false

/-- The reset law for one buffer and one assertion of `CTRL_RESET`. -/
structure ResetComplete (burst : Nat) (buffer : Buffer w) (resets : List (Ports w)) : Prop where
  /-- After the first edge of the reset nothing is presented or popped. -/
  silent : ∀ seen ports later, resets = seen ++ ports :: later → seen ≠ [] →
    ((buffer.run burst seen).observe ports).Silent
  /-- After the release the buffer behaves as after power-on, under every input sequence. -/
  forgotten : ∀ inputs ports, (buffer.run burst (resets ++ inputs)).observe ports =
    (Buffer.powerOn.run burst inputs).observe ports

/-! ### The registers a reset leaves out -/

/-- What the reset branches keep holds its power-on value. -/
def Core.KeepsNothing (core : Core w) : Prop :=
  core.writer.indataFifoRden = false ∧ core.writer.wrWdfWren = false ∧
    core.writer.wrWdfEnd = false ∧ core.writer.wrAppEn = false ∧ core.triggerPointer = 0

/-- No converter holds a request, a pulse or an acknowledge. -/
def Buffer.ConvertersQuiescent (buffer : Buffer w) : Prop :=
  buffer.rdStartConverter.Quiescent ∧ buffer.wrStartConverter.Quiescent ∧
    buffer.wrStopConverter.Quiescent

instance (core : Core w) : Decidable core.KeepsNothing :=
  inferInstanceAs (Decidable (_ ∧ _ ∧ _ ∧ _ ∧ _))

instance (buffer : Buffer w) : Decidable buffer.ConvertersQuiescent :=
  inferInstanceAs (Decidable (_ ∧ _ ∧ _))

theorem Core.asyncReset_eq_powerOn (keeps : core.KeepsNothing) :
    core.asyncReset = Core.powerOn := by
  obtain ⟨noPop, noBeat, noEnd, noCommand, noTrigger⟩ := keeps
  simp only [Core.triggerPointer] at noTrigger
  simp [Core.asyncReset, Core.powerOn, noPop, noBeat, noEnd, noCommand, noTrigger]

/-- However long the reset lasts, the processes end in the reset state of where they were. -/
theorem Buffer.core_run_resets (burst : Nat) {resets : List (Ports w)}
    (asserted : ∀ ports ∈ resets, ports.ctrlReset = true) (lasts : resets ≠ []) :
    (buffer.run burst resets).core = buffer.core.asyncReset := by
  have held : ∀ (buffer : Buffer w), ∀ ports ∈ resets,
      (buffer.clock burst ports).core = buffer.core.asyncReset := fun buffer ports member =>
    Core.clock_of_reset (by simp [Buffer.edge, Ports.inReset, asserted ports member])
  clear asserted
  induction resets generalizing buffer with
  | nil => exact absurd rfl lasts
  | cons ports rest inductionHypothesis =>
    cases rest with
    | nil => exact held buffer ports List.mem_cons_self
    | cons next rest =>
      have tail : ((buffer.clock burst ports).run burst (next :: rest)).core =
          (buffer.clock burst ports).core.asyncReset :=
        inductionHypothesis (by simp)
          fun buffer ports member => held buffer ports (List.mem_cons_of_mem _ member)
      rw [held buffer ports List.mem_cons_self] at tail
      exact tail

/-! ### What is forgotten -/

theorem Buffer.clock_eq_powerOn (burst : Nat) (fresh : buffer.core = Core.powerOn)
    (quiescent : buffer.ConvertersQuiescent) (ports : Ports w) :
    buffer.clock burst ports = Buffer.powerOn.clock burst ports := by
  obtain ⟨rdStart, wrStart, wrStop⟩ := quiescent
  have delivered : ∀ {pulse : Pulse2pulse}, pulse.Quiescent →
      (pulse.settle ports.reset).outProc.pulseout = false := fun quiescent => by
    cases ports.reset with
    | true => rfl
    | false => exact quiescent.pulseout
  simp only [Buffer.clock, Buffer.edge, fresh, delivered rdStart, delivered wrStart,
    delivered wrStop, rdStart.clock_eq, wrStart.clock_eq, wrStop.clock_eq, Buffer.powerOn,
    delivered Pulse2pulse.quiescent_reset]

/-- With the processes and the converters back where they start, the buffer cannot be told from
one after power-on. -/
theorem Buffer.observe_eq_powerOn (burst : Nat) (fresh : buffer.core = Core.powerOn)
    (quiescent : buffer.ConvertersQuiescent) (inputs : List (Ports w)) (ports : Ports w) :
    (buffer.run burst inputs).observe ports =
      (Buffer.powerOn.run burst inputs).observe ports := by
  cases inputs with
  | nil => exact congrArg (fun core : Core w => (core.settle ports).observe) fresh
  | cons first rest =>
    rw [Buffer.run, Clocked.run_cons, Buffer.clock_eq_powerOn burst fresh quiescent]
    rfl

/-! ### What a converter still holds can be seen -/

/-- Two buffers that no input sequence tells apart. -/
def Buffer.Indistinct (burst : Nat) (first second : Buffer w) : Prop :=
  ∀ inputs ports,
    (first.run burst inputs).observe ports = (second.run burst inputs).observe ports

theorem Buffer.Indistinct.clock {first second : Buffer w} (same : first.Indistinct burst second)
    (ports : Ports w) : (first.clock burst ports).Indistinct burst (second.clock burst ports) :=
  fun inputs => same (ports :: inputs)

theorem Buffer.Indistinct.wrBusy {first second : Buffer w} (same : first.Indistinct burst second) :
    first.core.wrBusy = second.core.wrBusy :=
  congrArg Observation.wrBusy (same [] Ports.low)

theorem Buffer.Indistinct.rdBusy {first second : Buffer w} (same : first.Indistinct burst second) :
    first.core.rdBusy = second.core.rdBusy :=
  congrArg Observation.rdBusy (same [] Ports.low)

/-- Inputs that ask for a start or a stop, with everything else low: the write run would wrap
around from address 0. -/
def Ports.ask (rdStart wrStart wrStop : Bool) : Ports w :=
  { (Ports.low : Ports w) with
    rdStart := rdStart, wrStart := wrStart, wrStop := wrStop, wrWrapAround := true }

section Reveal

variable (burst) (converter : Buffer w → Pulse2pulse) (ask : Bool → Ports w)
  (flag : Buffer w → Bool) (listening : Buffer w → Prop)

/-- While a buffer listens, an observable flag shows after each edge whether the converter
delivered a pulse there, and without a pulse the buffer goes on listening. -/
structure Reveals : Prop where
  clocked : ∀ buffer request, converter (buffer.clock burst (ask request)) =
    (converter buffer).clock true true false request
  observable : ∀ {first second : Buffer w}, first.Indistinct burst second →
    flag first = flag second
  shows : ∀ buffer request, listening buffer →
    flag (buffer.clock burst (ask request)) = (converter buffer).outProc.pulseout
  listens : ∀ buffer request, listening buffer → (converter buffer).outProc.pulseout = false →
    listening (buffer.clock burst (ask request))

variable {burst converter ask flag listening} {first second : Buffer w}

/-- Of two listening buffers that cannot be told apart, a pulse of one is a pulse of both. -/
theorem Reveals.pulseout_eq (reveals : Reveals burst converter ask flag listening)
    (same : first.Indistinct burst second) (firstListens : listening first)
    (secondListens : listening second) :
    (converter first).outProc.pulseout = (converter second).outProc.pulseout := by
  rw [← reveals.shows first false firstListens, ← reveals.shows second false secondListens]
  exact reveals.observable (same.clock (ask false))

/-- They are equally far into a handshake, as the pulse of the second shows. -/
theorem Reveals.request_eq (reveals : Reveals burst converter ask flag listening) {left m n : Nat}
    (toPulse : n + left = 3) (bound : m + left < 20) (same : first.Indistinct burst second)
    (firstListens : listening first) (secondListens : listening second)
    (firstAt : converter first = .request m) (secondAt : converter second = .request n) :
    m = n := by
  have pulse := reveals.pulseout_eq same firstListens secondListens
  rw [firstAt, secondAt, Pulse2pulse.pulseout_request (by omega),
    Pulse2pulse.pulseout_request (by omega), decide_eq_decide] at pulse
  induction left generalizing first second m n with
  | zero => omega
  | succ left inductionHypothesis =>
    have silent : ∀ {buffer : Buffer w} {k : Nat}, converter buffer = .request k → k < 20 →
        k ≠ 3 → (converter buffer).outProc.pulseout = false := fun reached bound early => by
      rw [reached, Pulse2pulse.pulseout_request bound, decide_eq_false early]
    have firstNext := reveals.listens first false firstListens
      (silent firstAt (by omega) (by omega))
    have secondNext := reveals.listens second false secondListens
      (silent secondAt (by omega) (by omega))
    have firstAfter : converter (first.clock burst (ask false)) = .request (m + 1) := by
      rw [reveals.clocked, firstAt]
      rfl
    have secondAfter : converter (second.clock burst (ask false)) = .request (n + 1) := by
      rw [reveals.clocked, secondAt]
      rfl
    have next := reveals.pulseout_eq (same.clock (ask false)) firstNext secondNext
    rw [firstAfter, secondAfter, Pulse2pulse.pulseout_request (by omega),
      Pulse2pulse.pulseout_request (by omega), decide_eq_decide] at next
    exact Nat.succ.inj (inductionHypothesis (by omega) (by omega) (same.clock (ask false))
      firstNext secondNext firstAfter secondAfter next)

/-- A buffer that cannot be told from one with its converter in reset has it quiescent. -/
theorem Reveals.quiescent (reveals : Reveals burst converter ask flag listening)
    (same : first.Indistinct burst second) (firstListens : listening first)
    (secondListens : listening second) (handshake : (converter first).Handshake)
    (atReset : converter second = .reset) : (converter first).Quiescent := by
  by_contra notQuiescent
  obtain ⟨k, busy, firstAt⟩ := handshake.busy notQuiescent
  have secondSilent : (converter second).outProc.pulseout = false := by rw [atReset]; rfl
  have firstSilent := (reveals.pulseout_eq same firstListens secondListens).trans secondSilent
  have firstAfter : converter (first.clock burst (ask true)) = .request (k + 1) := by
    rw [reveals.clocked, firstAt, Pulse2pulse.request_clock busy]
  have secondAfter : converter (second.clock burst (ask true)) = .request 0 := by
    rw [reveals.clocked, atReset]
    rfl
  have met := reveals.request_eq (show 0 + 3 = 3 from rfl) (by omega) (same.clock (ask true))
    (reveals.listens first true firstListens firstSilent)
    (reveals.listens second true secondListens secondSilent) firstAfter secondAfter
  exact absurd met (Nat.succ_ne_zero k)

end Reveal

/-! ### The two start converters -/

section Starts

variable {rdStart wrStart wrStop : Bool}

/-- The processes see the pulses of the converters while inputs are asked for. -/
theorem Buffer.clock_core_ask (buffer : Buffer w) :
    (buffer.clock burst (Ports.ask rdStart wrStart wrStop)).core =
      ⟨statusProcess buffer.core (buffer.edge (Ports.ask rdStart wrStart wrStop)),
        writeProcess burst buffer.core (buffer.edge (Ports.ask rdStart wrStart wrStop)),
        readProcess burst buffer.core (buffer.edge (Ports.ask rdStart wrStart wrStop))⟩ := by
  have running : (buffer.edge (Ports.ask rdStart wrStart wrStop)).inReset = false := rfl
  exact Core.clock_of_running running

/-- A read run that ends at address 0 lasts one clock, so `RD_BUSY` shows every read start. -/
theorem reveals_rdStart (burst : Nat) :
    Reveals burst (Buffer.rdStartConverter : Buffer w → Pulse2pulse)
      (fun request => Ports.ask request false false) (fun buffer => buffer.core.rdBusy)
      (fun buffer =>
        buffer.core.status.rdReading = true → buffer.core.status.rdAddrEndReg = 0) := by
  have reading : ∀ (buffer : Buffer w) request,
      (buffer.core.status.rdReading = true → buffer.core.status.rdAddrEndReg = 0) →
      (buffer.clock burst (Ports.ask request false false)).core.rdBusy =
        buffer.rdStartConverter.outProc.pulseout := by
    intro buffer request atZero
    have pulse : (buffer.edge (Ports.ask request false false)).rdStartPulse =
      buffer.rdStartConverter.outProc.pulseout := rfl
    rw [Core.rdBusy, Buffer.clock_core_ask, statusProcess_eq]
    simp only [pulse]
    cases buffer.rdStartConverter.outProc.pulseout <;>
      cases before : buffer.core.status.rdReading <;> simp_all [Core.readEnd]
  refine ⟨fun _ _ => rfl, fun same => same.rdBusy, reading, fun buffer request atZero silent => ?_⟩
  have ended : (buffer.clock burst (Ports.ask request false false)).core.status.rdReading = false :=
    (reading buffer request atZero).trans silent
  exact fun still => absurd still (by simp [ended])

/-- Neither writing nor about to stop, and no read start on its way. -/
structure Buffer.WriteDormant (buffer : Buffer w) : Prop where
  notWriting : buffer.core.status.wrWriting = false
  notStopping : buffer.core.status.wrStopping = false
  noRead : buffer.rdStartConverter.Quiescent

/-- In a dormant buffer `WR_BUSY` shows the first write start. -/
theorem Buffer.WriteDormant.ask (burst : Nat) {buffer : Buffer w} (dormant : buffer.WriteDormant)
    (wrStart wrStop : Bool) :
    (buffer.clock burst (Ports.ask false wrStart wrStop)).core.wrBusy =
        buffer.wrStartConverter.outProc.pulseout ∧
      (buffer.wrStartConverter.outProc.pulseout = false →
        (buffer.clock burst (Ports.ask false wrStart wrStop)).WriteDormant) := by
  obtain ⟨notWriting, notStopping, noRead⟩ := dormant
  have start : (buffer.edge (Ports.ask false wrStart wrStop)).wrStartPulse =
    buffer.wrStartConverter.outProc.pulseout := rfl
  have read : (buffer.edge (Ports.ask false wrStart wrStop)).rdStartPulse = false :=
    noRead.pulseout
  have noReach : buffer.core.stopReached = false := by simp [Core.stopReached, notStopping]
  refine ⟨?_, fun silent => ⟨?_, ?_, noRead.clock false⟩⟩ <;>
    simp only [Core.wrBusy, Buffer.clock_core_ask, statusProcess_eq, read, noReach, start,
      notWriting, notStopping, Bool.and_false]
  · cases buffer.wrStartConverter.outProc.pulseout <;> simp
  · simp [silent]
  · simp [silent]

theorem reveals_wrStart (burst : Nat) :
    Reveals burst (Buffer.wrStartConverter : Buffer w → Pulse2pulse)
      (fun request => Ports.ask false request false) (fun buffer => buffer.core.wrBusy)
      Buffer.WriteDormant :=
  ⟨fun _ _ => rfl, fun same => same.wrBusy,
    fun _ request dormant => (dormant.ask burst request false).1,
    fun _ request dormant => (dormant.ask burst request false).2⟩

end Starts

/-! ### The stop converter -/

/-- Writing from address 0 with wrap-around and an empty input FIFO, the start handshake past its
pulse and no read start on its way. -/
structure Buffer.Armed (buffer : Buffer w) : Prop where
  writing : buffer.core.status.wrWriting = true
  notStopping : buffer.core.status.wrStopping = false
  wraps : buffer.core.status.wrWrapAroundReg = true
  rests : buffer.core.writer.writeState = .W0
  atZero : buffer.core.writer.wrAddrI = 0
  noRead : buffer.rdStartConverter.Quiescent
  started : buffer.wrStartConverter = .request 4

/-- The write start reaches a dormant buffer and arms it, whatever is asked of the stop
converter. -/
theorem Buffer.WriteDormant.arm (burst : Nat) {buffer : Buffer w} (dormant : buffer.WriteDormant)
    (started : buffer.wrStartConverter = .request 3) (wrStop : Bool) :
    (buffer.clock burst (Ports.ask false false wrStop)).Armed := by
  obtain ⟨notWriting, notStopping, noRead⟩ := dormant
  have start : (buffer.edge (Ports.ask false false wrStop)).wrStartPulse = true :=
    congrArg (fun pulse => pulse.outProc.pulseout) started
  have read : (buffer.edge (Ports.ask false false wrStop)).rdStartPulse = false :=
    noRead.pulseout
  have noReach : buffer.core.stopReached = false := by simp [Core.stopReached, notStopping]
  have handshake : (buffer.clock burst (Ports.ask false false wrStop)).wrStartConverter =
      .request 4 := by
    rw [← Pulse2pulse.request_clock (by decide) false, ← started]
    rfl
  refine ⟨?_, ?_, ?_, ?_, ?_, noRead.clock false, handshake⟩ <;>
    simp only [Buffer.clock_core_ask, statusProcess_eq, writeProcess_of_start start, read, start,
      noReach, notWriting, Bool.and_false] <;>
    rfl

/-- A stop pulse that finds the buffer armed ends its write run two edges later. -/
theorem Buffer.Armed.stop (burst : Nat) {buffer : Buffer w} (armed : buffer.Armed) :
    ((buffer.clock burst (Ports.ask false false false)).clock burst
      (Ports.ask false false false)).core.wrBusy = !buffer.wrStopConverter.outProc.pulseout := by
  obtain ⟨writing, notStopping, wraps, rests, atZero, noRead, started⟩ := armed
  have start : (buffer.edge (Ports.ask false false false)).wrStartPulse = false :=
    congrArg (fun pulse => pulse.outProc.pulseout) started
  have read : (buffer.edge (Ports.ask false false false)).rdStartPulse = false :=
    noRead.pulseout
  have stop : (buffer.edge (Ports.ask false false false)).wrStopPulse =
    buffer.wrStopConverter.outProc.pulseout := rfl
  have noReach : buffer.core.stopReached = false := by simp [Core.stopReached, notStopping]
  have wait : writeProcess burst buffer.core (buffer.edge (Ports.ask false false false)) =
      ⟨0, .W0, false, false, false, false⟩ := by
    rw [writeProcess_of_noStart start]
    simp [writeFsm, rests, atZero, Buffer.edge, Ports.ask, Ports.low]
  have nextStart : ((buffer.clock burst (Ports.ask false false false)).edge
      (Ports.ask false false false)).wrStartPulse = false := by
    have handshake : (buffer.clock burst (Ports.ask false false false)).wrStartConverter =
        .request 5 := by
      rw [← Pulse2pulse.request_clock (by decide) false, ← started]
      rfl
    exact congrArg (fun pulse => pulse.outProc.pulseout) handshake
  have nextRead : ((buffer.clock burst (Ports.ask false false false)).edge
      (Ports.ask false false false)).rdStartPulse = false :=
    (noRead.clock false).pulseout
  have reached : (buffer.clock burst (Ports.ask false false false)).core.stopReached =
      buffer.wrStopConverter.outProc.pulseout := by
    rw [Core.stopReached, Core.atStopAddress, Buffer.clock_core_ask, wait, statusProcess_eq]
    simp only [start, read, stop, noReach, writing, notStopping, Core.autoStop, wraps]
    cases buffer.wrStopConverter.outProc.pulseout <;>
      simp [atZero, Buffer.edge, Ports.ask, Ports.low]
  have goesOn : (buffer.clock burst (Ports.ask false false false)).core.status.wrWriting = true ∧
      (buffer.clock burst (Ports.ask false false false)).core.autoStop = false := by
    simp [Buffer.clock_core_ask, statusProcess_eq, Core.autoStop, start, read, noReach, writing,
      wraps]
  rw [Core.wrBusy, Buffer.clock_core_ask, statusProcess_eq]
  simp only [nextStart, nextRead, reached, goesOn.1, goesOn.2]
  cases buffer.wrStopConverter.outProc.pulseout <;> rfl

/-- A write start in the first of five clocks, with the stop input at the given levels in the first
two. -/
def Ports.startAndStop (first second : Bool) : List (Ports w) :=
  [.ask false true first, .ask false false second, .ask false false false, .ask false false false,
    .ask false false false]

/-- The stop pulses of a converter after those five clocks. -/
def stopAfter (pulse : Pulse2pulse) (first second : Bool) : Bool :=
  (Clocked.run (fun pulse request => pulse.clock true true false request) pulse
    [first, second, false, false, false]).outProc.pulseout

/-- Two clocks later `WR_BUSY` shows whether a stop pulse met the write run. -/
theorem Buffer.WriteDormant.wrBusy_stop (burst : Nat) {buffer : Buffer w}
    (dormant : buffer.WriteDormant) (quiescent : buffer.wrStartConverter.Quiescent)
    (first second : Bool) :
    (buffer.run burst (Ports.startAndStop first second ++
      [Ports.ask false false false, Ports.ask false false false])).core.wrBusy =
      !stopAfter buffer.wrStopConverter first second := by
  have step : ∀ {buffer : Buffer w} {k : Nat} (wrStop : Bool), buffer.WriteDormant →
      buffer.wrStartConverter = .request k → k < 3 →
      (buffer.clock burst (Ports.ask false false wrStop)).WriteDormant ∧
        (buffer.clock burst (Ports.ask false false wrStop)).wrStartConverter =
          .request (k + 1) := fun {buffer k} wrStop dormant started early => by
    refine ⟨(dormant.ask burst false wrStop).2 ?_, ?_⟩
    · rw [started, Pulse2pulse.pulseout_request (by omega), decide_eq_false early.ne]
    · rw [← Pulse2pulse.request_clock (by omega) false, ← started]
      rfl
  have asked := (dormant.ask burst true first).2 quiescent.pulseout
  have taken : (buffer.clock burst (Ports.ask false true first)).wrStartConverter =
      .request 0 := quiescent.clock_eq false true
  have one := step second asked taken (by decide)
  have two := step false one.1 one.2 (by decide)
  have three := step false two.1 two.2 (by decide)
  exact (three.1.arm burst three.2 false).stop burst

/-- Two buffers that cannot be told apart, one of them with its stop converter in reset: the other
has it quiescent. -/
theorem Buffer.Indistinct.wrStop_quiescent {first second : Buffer w}
    (same : first.Indistinct burst second) (firstDormant : first.WriteDormant)
    (secondDormant : second.WriteDormant) (firstStart : first.wrStartConverter.Quiescent)
    (secondStart : second.wrStartConverter.Quiescent)
    (handshake : first.wrStopConverter.Handshake) (atReset : second.wrStopConverter = .reset) :
    first.wrStopConverter.Quiescent := by
  by_contra notQuiescent
  obtain ⟨k, busy, firstAt⟩ := handshake.busy notQuiescent
  have shown : ∀ early late, stopAfter (.request k) early late = stopAfter .reset early late := by
    intro early late
    have flag := congrArg Observation.wrBusy (same (Ports.startAndStop early late ++
      [Ports.ask false false false, Ports.ask false false false]) Ports.low)
    have flags := ((firstDormant.wrBusy_stop burst firstStart early late).symm.trans flag).trans
      (secondDormant.wrBusy_stop burst secondStart early late)
    rw [firstAt, atReset] at flags
    exact Bool.not_inj flags
  have told : ∀ k < 14, stopAfter (.request k) false true ≠ stopAfter .reset false true ∨
      stopAfter (.request k) true true ≠ stopAfter .reset true true := by
    decide
  rcases told k busy with told | told
  · exact told (shown false true)
  · exact told (shown true true)

/-! ### The reset law -/

/-- What the first observation after a reset shows of the registers the reset leaves out. -/
theorem Core.keepsNothing_of_observe (ports : Ports w)
    (same : (core.asyncReset.settle ports).observe = (Core.powerOn.settle ports).observe) :
    core.KeepsNothing := by
  have settled : ∀ core : Core w, core.asyncReset.settle ports = core.asyncReset := fun core => by
    cases reset : ports.inReset with
    | true => rw [Core.settle_of_reset reset]; rfl
    | false => rw [Core.settle_of_running reset]
  rw [settled core, show (Core.powerOn : Core w).settle ports = Core.powerOn from settled _] at same
  have enable := congrArg Observation.command same
  refine ⟨congrArg Observation.indataFifoRden same, congrArg Observation.appWdfWren same,
    congrArg Observation.appWdfEnd same, ?_, congrArg Observation.triggerPointer same⟩
  cases raised : core.writer.wrAppEn with
  | false => rfl
  | true =>
    exact absurd enable (by
      simp [Core.observe, Core.appEn, Core.asyncReset, raised, Core.powerOn])

/-- With the processes back at power-on, indistinct buffers have quiescent converters. -/
theorem Buffer.Indistinct.quiescent (same : buffer.Indistinct burst Buffer.powerOn)
    (fresh : buffer.core = Core.powerOn) (rdStart : buffer.rdStartConverter.Handshake)
    (wrStart : buffer.wrStartConverter.Handshake) (wrStop : buffer.wrStopConverter.Handshake) :
    buffer.ConvertersQuiescent := by
  have rests : ∀ {other : Buffer w}, other.core = Core.powerOn →
      other.core.status.rdReading = true → other.core.status.rdAddrEndReg = 0 :=
    fun fresh reading => absurd reading (by simp [fresh, Core.powerOn, Core.asyncReset])
  have dormant : ∀ {other : Buffer w}, other.core = Core.powerOn →
      other.rdStartConverter.Quiescent → other.WriteDormant := fun fresh quiescent =>
    ⟨by rw [fresh]; rfl, by rw [fresh]; rfl, quiescent⟩
  have rdQuiescent : buffer.rdStartConverter.Quiescent :=
    (reveals_rdStart burst).quiescent same (rests fresh) (rests rfl) rdStart rfl
  have wrQuiescent : buffer.wrStartConverter.Quiescent :=
    (reveals_wrStart burst).quiescent same (dormant fresh rdQuiescent)
      (dormant rfl Pulse2pulse.quiescent_reset) wrStart rfl
  exact ⟨rdQuiescent, wrQuiescent, same.wrStop_quiescent (dormant fresh rdQuiescent)
    (dormant rfl Pulse2pulse.quiescent_reset) wrQuiescent Pulse2pulse.quiescent_reset wrStop rfl⟩

/-- A reset is complete exactly when, at its first edge, the strobes of the write process are low
and no trigger pointer is held, and, at its release, the converters are quiescent. -/
theorem reset_complete_iff (burst : Nat) (before resets : List (Ports w)) (lasts : resets ≠ [])
    (asserted : ∀ ports ∈ resets, ports.ctrlReset = true) :
    ResetComplete burst (Buffer.powerOn.run burst before) resets ↔
      (Buffer.powerOn.run burst before).core.KeepsNothing ∧
        (Buffer.powerOn.run burst (before ++ resets)).ConvertersQuiescent := by
  have released : (Buffer.powerOn.run burst (before ++ resets)).core =
      (Buffer.powerOn.run burst before).core.asyncReset := by
    rw [Buffer.run_append, Buffer.core_run_resets burst asserted lasts]
  have continued : ∀ inputs, (Buffer.powerOn.run burst before).run burst (resets ++ inputs) =
      (Buffer.powerOn.run burst (before ++ resets)).run burst inputs := fun inputs => by
    rw [Buffer.run_append, Buffer.run_append]
  constructor
  · intro complete
    have same : (Buffer.powerOn.run burst (before ++ resets)).Indistinct burst Buffer.powerOn :=
      fun inputs ports => by rw [← continued, complete.forgotten]
    have shown : ((Buffer.powerOn.run burst (before ++ resets)).core.settle Ports.low).observe =
        (Core.powerOn.settle Ports.low).observe := same [] Ports.low
    rw [released] at shown
    have keeps := Core.keepsNothing_of_observe _ shown
    obtain ⟨rdStart, wrStart, wrStop⟩ := Buffer.handshakes burst (before ++ resets)
    exact ⟨keeps, same.quiescent (released.trans (Core.asyncReset_eq_powerOn keeps)) rdStart
      wrStart wrStop⟩
  · rintro ⟨keeps, quiescent⟩
    have fresh := released.trans (Core.asyncReset_eq_powerOn keeps)
    refine ⟨?_, fun inputs ports => ?_⟩
    · rintro seen ports later rfl reached
      have held : ((Buffer.powerOn.run burst before).run burst seen).core = Core.powerOn :=
        (Buffer.core_run_resets burst
          (fun ports member => asserted ports (List.mem_append_left _ member)) reached).trans
          (Core.asyncReset_eq_powerOn keeps)
      rw [Buffer.observe, held, Core.settle_of_reset (by
        simp [Ports.inReset, asserted ports (by simp)])]
      exact ⟨rfl, rfl, rfl⟩
    · rw [continued]
      exact Buffer.observe_eq_powerOn burst fresh quiescent inputs ports

/-- A reset after the write run has ended and its handshake is over is complete. -/
theorem reset_complete_at_rest :
    ResetComplete 2 (Buffer.powerOn.run 2 (Buffer.startAndRun 10 6))
      (List.replicate 3 { Ports.low with ctrlReset := true }) :=
  (reset_complete_iff 2 (Buffer.startAndRun 10 6)
    (List.replicate 3 { Ports.low with ctrlReset := true }) (by decide) (by decide)).mpr
    (by decide)

/-- A reset that finds a beat on the bus leaves it there, and the input FIFO popping. -/
theorem reset_incomplete_in_beat :
    (Buffer.powerOn.run 2 (Buffer.startAndRun 5 0)).core.writer.writeState = .W1 ∧
      ¬ResetComplete 2 (Buffer.powerOn.run 2 (Buffer.startAndRun 5 0))
        (List.replicate 3 { Ports.low with ctrlReset := true }) := by
  refine ⟨by decide, fun complete => ?_⟩
  have silent := complete.silent [{ Ports.low with ctrlReset := true }]
    { Ports.low with ctrlReset := true } [{ Ports.low with ctrlReset := true }] rfl (by decide)
  exact absurd silent.2.1 (by decide)

end K71GbE.Sdram
