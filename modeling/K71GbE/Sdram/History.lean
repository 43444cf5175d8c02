/-
This file tells what lies around the trigger in the memory, after an acquisition
in wrap-around mode that a stop has ended.

From `TRIGGER_POINTER` on the memory holds the bursts that followed the stop, as
many as `POST_TRIGGER` asks for, and behind them, round the ring, those that came
before it.
-/

import K71GbE.Sdram.Playback
import K71GbE.Sdram.StopTrigger

namespace K71GbE.Sdram

open Clocked BusEvent

variable {w : Nat} {Word : Type*} {burst : Nat} {words : Nat → Word} {stream : Stream w}

namespace Stream

theorem run_core (burst : Nat) (stream : Stream w) (inputs : List (StreamPorts w Word)) :
    (stream.run burst inputs).buffer.core =
      Clocked.run (Core.clock burst) stream.buffer.core (stream.edgesFrom burst inputs) := by
  induction inputs generalizing stream with
  | nil => rfl
  | cons input rest inductionHypothesis => exact inductionHypothesis (stream.clock burst input)

end Stream

/-- What a stop finds in a write run that no earlier stop is about to end. -/
theorem WriteRun.stopFinds {begin : BitVec w} {core : Core w} {commands : List (BitVec w)}
    (run : WriteRun burst begin core commands) (writing : core.status.wrWriting = true)
    (fresh : core.stopReached = false) : StopFinds core := by
  refine ⟨run.known, fun state => ?_, (run.enabled writing).mpr, run.notReading, fun reached => ?_⟩
  · refine Bool.eq_false_iff.mpr fun enabled => ?_
    rw [(run.enabled writing).mp enabled] at state
    cases state
  · rw [fresh] at reached
    cases reached

end K71GbE.Sdram
