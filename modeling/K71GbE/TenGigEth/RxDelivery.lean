/-
This file is about two deliveries of the same frames to the receive parser.

Both leave the same commands when they are orderly. The parser does not look at
its own `TREADY`, so a beat that is held back while it still reads the frame is
read once more; and a frame that follows another at once is not noticed.
-/

import K71GbE.TenGigEth.RxFrames

namespace K71GbE.TenGigEth

open Clocked

/-- A beat that is held back stays as it is. -/
def Held (input next : RxInput) : Prop :=
  input.tvalid = true ∧ input.tready = false →
    next.tvalid = true ∧ next.tdata = input.tdata ∧ next.tlast = input.tlast

instance (input next : RxInput) : Decidable (Held input next) :=
  inferInstanceAs (Decidable (_ → _))

/-- The last two clocks bring no last beat. -/
def Ended (inputs : List RxInput) : Prop :=
  ∃ early input next, inputs = early ++ [input, next] ∧ input.tlast = false ∧ next.tlast = false

/-- Whenever a stream comes to rest, what was pushed is told by its beats. -/
theorem pushed_of_beats (config : Config) (rx : RxParser) {inputs : List RxInput}
    (orderly : Along (RxParser.clock config) (Orderly config) rx.reset inputs)
    (ended : Ended inputs) :
    log (RxParser.clock config) (RxParser.pushed config) rx.reset inputs =
      log takeBeat (beatCommand config) (.s0, .zero) (inputs.flatMap RxInput.transferred) := by
  have pushes := RxParser.log_pushed rx orderly
  have quiet : (run (RxParser.clock config) rx.reset inputs).pending config = [] := by
    obtain ⟨early, input, next, rfl, first, second⟩ := ended
    rw [run_append]
    exact RxParser.pending_clock_clock _ first second
  rwa [quiet, List.append_nil] at pushes

/-- Two orderly deliveries of the same beats leave the same commands. -/
theorem delivery_independent (config : Config) (rx rx' : RxParser) {inputs inputs' : List RxInput}
    (orderly : Along (RxParser.clock config) (Orderly config) rx.reset inputs)
    (orderly' : Along (RxParser.clock config) (Orderly config) rx'.reset inputs')
    (same : inputs.flatMap RxInput.transferred = inputs'.flatMap RxInput.transferred)
    (ended : Ended inputs) (ended' : Ended inputs') :
    log (RxParser.clock config) (RxParser.pushed config) rx.reset inputs =
      log (RxParser.clock config) (RxParser.pushed config) rx'.reset inputs' := by
  rw [pushed_of_beats config rx orderly ended, pushed_of_beats config rx' orderly' ended', same]

/-- The clocks of beats without one between them, where the FIFO is full at those of `full`. -/
def atOnce (full : List Nat) (frame : List Beat) : List RxInput :=
  frame.zipIdx.map fun (beat, i) => ⟨beat.tdata, true, beat.tlast, full.contains i⟩

/-- A datagram with pauses, and one without them whose seventh word is held back. -/
theorem delivery_independent_sample :
    log (RxParser.clock station) (RxParser.pushed station) RxParser.idle.reset
        (delivered [spaced datagram (by decide)] [0, 0]) =
      log (RxParser.clock station) (RxParser.pushed station) RxParser.idle.reset
        (idleClock 0 :: atOnce [6] (beats (datagram.insertIdx 6 0)) ++
          [idleClock 0, idleClock 0]) :=
  delivery_independent station RxParser.idle RxParser.idle (by decide +kernel) (by decide +kernel)
    (by decide) ⟨_, _, _, rfl, rfl, rfl⟩ ⟨_, _, _, rfl, rfl, rfl⟩

/-- A datagram with pauses leaves its command. With its first word held back for a clock it
leaves none, although the beats are the same. An empty frame with no clock before it is not
noticed, and leaves the command of the datagram once more. -/
theorem deliveries_differ :
    let commands := log (RxParser.clock station) (RxParser.pushed station) RxParser.idle.reset
    let raised := 0x0200000000020a0000021234efbeadde
    let empty := List.replicate 8 0
    let paused := delivered [spaced datagram (by decide)] [0, 0]
    let held := idleClock 0 :: atOnce [0] (beats (datagram.head! :: datagram)) ++
      [idleClock 0, idleClock 0]
    let apart := delivered [spaced datagram (by decide), spaced empty (by decide)] [0, 0]
    let adjacent := idleClock 0 :: atOnce [] (beats datagram ++ beats empty) ++
      [idleClock 0, idleClock 0]
    (paused.IsChain Held ∧ held.IsChain Held ∧
        held.flatMap RxInput.transferred = paused.flatMap RxInput.transferred ∧
        commands paused = [raised] ∧ commands held = []) ∧
      (apart.IsChain Held ∧ adjacent.IsChain Held ∧
        adjacent.flatMap RxInput.transferred = apart.flatMap RxInput.transferred ∧
        commands apart = [raised] ∧ commands adjacent = [raised, raised]) := by
  decide +kernel

end K71GbE.TenGigEth
