/-
This file proves what a request of the host for words of the data FIFO brings:
the next words of that FIFO, all of them, in order and alone, one more than the
request says.
-/

import K71GbE.Control.DataTransfer
import K71GbE.Host.Command
import K71GbE.Host.Fmc112

namespace K71GbE.Host

open Clocked Control System

/-- The request of `fmc112_read_save`: `cmd_read_datafifo` of `NBASK/sizeof(int32_t)-1`. -/
def request (host : Endian) : List (BitVec 32) :=
  cmdReadDatafifo host (BitVec.ofNat 32 (nbask / 4 - 1))

theorem fifo8to32_request (host : Endian) :
    fifo8to32 (sent host (request host)) = [0x00197fff] :=
  (fifo8to32_sent host _).trans (by decide)

variable {traffic : Traffic} {memory : BitVec 32 → BitVec 32} {seen : List Tick} {write : Tick}
  {n : Nat}

/-- A WRITE of `n` to address 25 moves `n + 1` words of the data FIFO to the output FIFO, in order
and with no other word among them, unless it still waits for a word or for room. Outside a
transfer no word leaves the data FIFO. Asked for by the host, the words make up one chunk. -/
theorem data_fifo_transfer
    (starts : (run (clock traffic) (powerOn memory) seen).StartsTransfer traffic write n)
    (ticks : List Tick) :
    let start := (run (clock traffic) (powerOn memory) seen).clock traffic write
    ((∃ moved ≤ n, Moving traffic start ticks moved ∧
        (run (clock traffic) start ticks).Transferring) ∨
      ∃ during rest, ticks = during ++ rest ∧ Moving traffic start during (n + 1) ∧
        (run (clock traffic) start during).control.cmdState = .waitCmd) ∧
    (∀ others tick, ¬(run (clock traffic) (powerOn memory) others).Transferring →
      (run (clock traffic) (powerOn memory) others).dataPopped traffic tick = []) ∧
    ∀ (host : Endian) (unused : BitVec 4) (word : BitVec 32),
      fifo8to32 (sent host (request host)) = [word] →
      (run (clock traffic) (powerOn memory) seen).cmdFifoQ traffic write = unused ++ word →
      ∃ words, segment traffic.data start.dataFifo.popped (n + 1) = words.map outputWord ∧
        (fifo32to8 words).length = nbask := by
  intro start
  have selecting := selecting_run traffic memory seen
  obtain ⟨state, count, -⟩ := starts.clock selecting
  refine ⟨transfer_of_count (Selecting.clock traffic selecting write) state count ticks,
    fun others tick other => ?_, fun host unused word asked carried => ?_⟩
  · exact dataPopped_of_other (selecting_run traffic memory others) other
  · rw [fifo8to32_request, List.singleton_inj] at asked
    have data := starts.data
    rw [carried, dataOf_append, ← asked] at data
    have size : n = nbask / 4 - 1 := data.symm
    refine ⟨(List.range (n + 1)).map fun k => traffic.data (start.dataFifo.popped + k), ?_, ?_⟩
    · rw [List.map_map]
      rfl
    · rw [length_fifo32to8, List.length_map, List.length_range, size]
      rfl

/-- The words of the data FIFO are numbered, and two are asked for. -/
def twoWords : Traffic where
  commands _ := 0x00190001
  data k := BitVec.ofNat 32 k

/-- The command arrives, is fetched and interpreted. -/
def fetched : List Tick := [{ Tick.quiet with cmdArriving := 1, dataArriving := 3 }, .quiet]

/-- A word moves, the output FIFO is full for a clock, and the second word moves. -/
theorem two_words_moved :
    let start := (run (clock twoWords) (powerOn fun _ => 0) fetched).clock twoWords .quiet
    ∃ during rest, [.quiet, { Tick.quiet with sFifoFull := true }, .quiet, .quiet] =
        during ++ rest ∧ Moving twoWords start during 2 ∧
      (run (clock twoWords) start during).control.cmdState = .waitCmd := by
  intro start
  have starts : (run (clock twoWords) (powerOn fun _ => 0) fetched).StartsTransfer twoWords .quiet
      1 := ⟨by decide +kernel, by decide +kernel, by decide +kernel, by decide +kernel⟩
  refine (data_fifo_transfer starts
    [.quiet, { Tick.quiet with sFifoFull := true }, .quiet, .quiet]).1.resolve_left ?_
  rintro ⟨moved, -, -, goes⟩
  have ended : ¬(run (clock twoWords) start
      [.quiet, { Tick.quiet with sFifoFull := true }, .quiet, .quiet]).control.cmdState =
      .fifoAdv := by decide +kernel
  exact ended goes

end K71GbE.Host
