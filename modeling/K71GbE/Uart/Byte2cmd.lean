/-
This file models `byte2cmd`, which puts the bytes of a serial line together into the
words of a command FIFO, and says what becomes of the frames that it receives.

A frame is eight bytes with the tags 7 to 0 and five bits each. A byte waits in
`sInByte` until the next one comes, whose edge then reads its tag and its bits, so the
word of a frame is written behind the first byte of the next frame and never before.
-/

import K71GbE.Clocked.Lanes
import K71GbE.Clocked.Progress

namespace K71GbE.Uart

open Clocked

/-- `cmdState_t`. -/
inductive CmdState where
  | s0 | s1
deriving DecidableEq, Repr

/-- The registers. The variable `addri` is assigned before it is read and keeps nothing. -/
structure Byte2cmd where
  sCmdFifoD : BitVec 40
  sCmdFifoWrreq : Bool
  sInByte : BitVec 8
  cmdState : CmdState
deriving DecidableEq, Repr

/-- The byte at a clock, and whether the command FIFO is full. -/
structure ByteInput where
  rxData : BitVec 8
  rxRdy : Bool
  sCmdFifoFull : Bool
deriving DecidableEq, Repr

/-- The tag of a byte, its top three bits. -/
def tag (byte : BitVec 8) : BitVec 3 := byte.extractLsb' 5 3

/-- The bits that a byte carries. -/
def payload (byte : BitVec 8) : BitVec 5 := byte.extractLsb' 0 5

/-- The byte that comes at a clock. -/
def ByteInput.bytes (input : ByteInput) : List (BitVec 8) :=
  if input.rxRdy then [input.rxData] else []

namespace Byte2cmd

/-- The registers under `RESET`. -/
def reset : Byte2cmd := ⟨0, false, 0xff, .s0⟩

/-- A falling edge of `CLK`. -/
def clock (state : Byte2cmd) (input : ByteInput) : Byte2cmd :=
  match state.cmdState with
  | .s0 =>
    if input.rxRdy then
      -- `sInByte` is still the byte before.
      let addri := (tag state.sInByte).toNat
      { sCmdFifoD := setPart state.sCmdFifoD addri (payload state.sInByte)
        sCmdFifoWrreq := false
        sInByte := input.rxData
        cmdState := if addri = 0 then .s1 else .s0 }
    else { state with sCmdFifoWrreq := false }
  | .s1 => { state with sCmdFifoWrreq := true, cmdState := .s0 }

/-- What the FIFO stores at the rising edge before. -/
def written (state : Byte2cmd) (input : ByteInput) : List (BitVec 36) :=
  if state.sCmdFifoWrreq && !input.sCmdFifoFull then [state.sCmdFifoD.extractLsb' 0 36] else []

end Byte2cmd

/-! ### Frames -/

/-- The low 36 of the bits of a frame, put together. -/
def frameWord (frame : List (BitVec 8)) : BitVec 36 :=
  (ofMsbFirst (frame.map payload) : BitVec 40).extractLsb' 0 36

/-- The words of the frames that are complete. -/
def frameWords (bytes : List (BitVec 8)) : List (BitVec 36) :=
  (List.range (bytes.length / 8)).map fun k => frameWord ((bytes.drop (8 * k)).take 8)

theorem length_frameWords (bytes : List (BitVec 8)) :
    (frameWords bytes).length = bytes.length / 8 := by
  rw [frameWords, List.length_map, List.length_range]

/-- The frames of a beginning are frames of the whole. -/
theorem frameWords_append (bytes more : List (BitVec 8)) :
    ∀ k ∈ List.range (bytes.length / 8),
      frameWord (((bytes ++ more).drop (8 * k)).take 8) =
        frameWord ((bytes.drop (8 * k)).take 8) := by
  intro k member
  have inside := List.mem_range.mp member
  rw [List.drop_append_of_le_length (by omega), List.take_append_of_le_length]
  rw [List.length_drop]
  omega

theorem frameWords_mono {bytes more : List (BitVec 8)} (front : bytes <+: more) :
    frameWords bytes <+: frameWords more := by
  obtain ⟨rest, rfl⟩ := front
  obtain ⟨gap, later⟩ : ∃ gap, (bytes ++ rest).length / 8 = bytes.length / 8 + gap :=
    Nat.exists_eq_add_of_le (Nat.div_le_div_right (List.prefix_append bytes rest).length_le)
  rw [frameWords, frameWords, later, List.range_add, List.map_append,
    List.map_congr_left (frameWords_append bytes rest)]
  exact List.prefix_append _ _

/-- A byte completes a frame, or the words are the same. -/
theorem frameWords_concat (bytes : List (BitVec 8)) (byte : BitVec 8) :
    frameWords (bytes ++ [byte]) = frameWords bytes ++
      if (bytes.length + 1) % 8 = 0
      then [frameWord ((bytes ++ [byte]).drop (bytes.length - 7))] else [] := by
  have front := List.map_congr_left (frameWords_append bytes [byte])
  rw [frameWords, List.length_append, List.length_singleton]
  split_ifs with complete
  · have next : (bytes.length + 1) / 8 = bytes.length / 8 + 1 := by omega
    have place : 8 * (bytes.length / 8) = bytes.length - 7 := by omega
    rw [next, List.range_succ, List.map_append, front, List.map_singleton, place,
      List.take_of_length_le]
    · rfl
    · rw [List.length_drop, List.length_append, List.length_singleton]
      omega
  · have same : (bytes.length + 1) / 8 = bytes.length / 8 := by omega
    rw [same, front, List.append_nil]
    rfl

/-! ### The register of a frame -/

/-- The last eight bytes that were read are in their places. -/
def Placed (sCmdFifoD : BitVec 40) (read : List (BitVec 8)) : Prop :=
  ∀ m (inside : m < read.length), read.length ≤ m + 8 →
    part 5 sCmdFifoD (7 - m % 8) = payload read[m]

theorem Placed.concat {sCmdFifoD : BitVec 40} {read : List (BitVec 8)}
    (placed : Placed sCmdFifoD read) {byte : BitVec 8} {addri : Nat}
    (place : addri = 7 - read.length % 8) :
    Placed (setPart sCmdFifoD addri (payload byte)) (read ++ [byte]) := by
  intro m inside recent
  rw [List.length_append, List.length_singleton] at inside recent
  rcases Nat.lt_or_eq_of_le (Nat.le_of_lt_succ inside) with earlier | rfl
  · rw [part_setPart_of_ne _ _ (by omega), List.getElem_append_left earlier]
    exact placed m earlier (by omega)
  · rw [← place, part_setPart _ _ (by omega), List.getElem_append_right le_rfl]
    simp

/-- A whole frame is put together. -/
theorem Placed.whole {sCmdFifoD : BitVec 40} {read : List (BitVec 8)}
    (placed : Placed sCmdFifoD read) (eight : 8 ≤ read.length) (complete : read.length % 8 = 0) :
    sCmdFifoD.extractLsb' 0 36 = frameWord (read.drop (read.length - 8)) := by
  have length : ((read.drop (read.length - 8)).map payload).reverse.length = 8 := by
    rw [List.length_reverse, List.length_map, List.length_drop]
    omega
  have lanes : lanes 5 8 sCmdFifoD = ((read.drop (read.length - 8)).map payload).reverse := by
    refine List.ext_getElem (by rw [length_lanes, length]) fun i first second => ?_
    rw [length_lanes] at first
    have byte := placed (read.length - 8 + (7 - i)) (by omega) (by omega)
    have place : 7 - (read.length - 8 + (7 - i)) % 8 = i := by omega
    rw [place] at byte
    rw [getElem_lanes, byte, List.getElem_reverse, List.getElem_map, List.getElem_drop]
    congr 2
    rw [List.length_map, List.length_drop]
    omega
  have same : sCmdFifoD = ofMsbFirst ((read.drop (read.length - 8)).map payload) := by
    refine eq_of_lanes (k := 5) (n := 8) (by decide) ?_
    rw [lanes, ofMsbFirst, lanes_ofLanes length (by decide)]
  rw [frameWord, ← same]

/-! ### Clocks -/

/-- The word in the register. -/
def Byte2cmd.word (state : Byte2cmd) : BitVec 36 := state.sCmdFifoD.extractLsb' 0 36

/-- What the registers hold when so many bytes have come and so many words are stored. -/
structure Assembling (state : Byte2cmd) (bytes : List (BitVec 8)) (words : List (BitVec 36)) :
    Prop where
  inByte : state.sInByte = bytes.getLast?.getD 0xff
  placed : Placed state.sCmdFifoD bytes.dropLast
  /-- Outside `S1` only the word of which the FIFO is told is still to be stored. -/
  told : state.cmdState = .s0 →
    words ++ (if state.sCmdFifoWrreq then [state.word] else []) = frameWords bytes.dropLast
  /-- In `S1` there is one more, of which it is not told yet. -/
  owed : state.cmdState = .s1 →
    state.sCmdFifoWrreq = false ∧ words ++ [state.word] = frameWords bytes.dropLast

section Clocks

variable {state : Byte2cmd} {bytes : List (BitVec 8)} {words : List (BitVec 36)}
  {input : ByteInput}

theorem assembling_reset : Assembling Byte2cmd.reset [] [] where
  inByte := rfl
  placed _ inside _ := absurd inside (Nat.not_lt_zero _)
  told _ := rfl
  owed := nofun

theorem Byte2cmd.written_eq (room : input.sCmdFifoFull = false) :
    state.written input = if state.sCmdFifoWrreq then [state.word] else [] := by
  rw [Byte2cmd.written, room, Bool.not_false, Bool.and_true]
  rfl

/-- A clock without a byte. -/
theorem Assembling.silent (assembling : Assembling state bytes words)
    (silent : input.rxRdy = false) (room : input.sCmdFifoFull = false) :
    Assembling (state.clock input) bytes (words ++ state.written input) := by
  obtain ⟨inByte, placed, told, owed⟩ := assembling
  rw [Byte2cmd.written_eq room]
  cases now : state.cmdState with
  | s0 =>
    have next : state.clock input = { state with sCmdFifoWrreq := false } := by
      simp [Byte2cmd.clock, now, silent]
    rw [next]
    refine ⟨inByte, placed, fun _ => ?_, fun s1 => absurd (now.symm.trans s1) nofun⟩
    rw [told now, if_neg Bool.false_ne_true, List.append_nil]
  | s1 =>
    obtain ⟨quiet, more⟩ := owed now
    have next : state.clock input = { state with sCmdFifoWrreq := true, cmdState := .s0 } := by
      simp [Byte2cmd.clock, now]
    rw [next, quiet, if_neg Bool.false_ne_true, List.append_nil]
    exact ⟨inByte, placed, fun _ => more, nofun⟩

/-- The edge of a byte reads the byte before it. -/
theorem Assembling.byte (assembling : Assembling state bytes words) (now : state.cmdState = .s0)
    (ready : input.rxRdy = true) (room : input.sCmdFifoFull = false)
    (tagged : ∀ m (inside : m < bytes.length), (tag bytes[m]).toNat = 7 - m % 8) :
    Assembling (state.clock input) (bytes ++ [input.rxData]) (words ++ state.written input) := by
  obtain ⟨inByte, placed, told, _⟩ := assembling
  rw [Byte2cmd.written_eq room, told now]
  simp only [Byte2cmd.clock, now, ready, if_true]
  rcases List.eq_nil_or_concat' bytes with rfl | ⟨read, byte, rfl⟩
  · -- The byte of the reset has tag 7.
    have other : (tag ((List.getLast? ([] : List (BitVec 8))).getD 0xff)).toNat ≠ 0 := by decide
    rw [inByte, if_neg other]
    exact ⟨rfl, fun _ inside _ => absurd inside (Nat.not_lt_zero _), fun _ => List.append_nil _,
      nofun⟩
  · have place := tagged read.length (by simp)
    rw [List.getElem_append_right le_rfl] at place
    simp only [List.getLast?_append, List.getLast?_singleton, Option.some_or, Option.getD_some,
      List.dropLast_concat, Nat.sub_self, List.getElem_singleton] at inByte placed place
    have placed' : Placed (setPart state.sCmdFifoD (tag byte).toNat (payload byte))
        (read ++ [byte]) := placed.concat place
    rw [inByte]
    refine ⟨by simp, by rwa [List.dropLast_concat], fun s0 => ?_, fun s1 => ⟨rfl, ?_⟩⟩
    · have more : (read.length + 1) % 8 ≠ 0 := by
        have other : (tag byte).toNat ≠ 0 := fun zero => by simp [zero] at s0
        omega
      rw [List.dropLast_concat, List.dropLast_concat, frameWords_concat, if_neg more,
        List.append_nil]
      exact List.append_nil _
    · have complete : (read.length + 1) % 8 = 0 := by
        have last : (tag byte).toNat = 0 := by
          by_contra other
          simp [other] at s1
        omega
      have whole := placed'.whole (by simp; omega) (by simpa using complete)
      rw [List.length_append, List.length_singleton] at whole
      rw [List.dropLast_concat, List.dropLast_concat, frameWords_concat, if_pos complete,
        Byte2cmd.word, whole]
      rfl

end Clocks

/-! ### Runs -/

section Runs

variable (inputs : Nat → ByteInput)

/-- The registers at clock `n` after reset, the bytes that came before it, and the words that were
stored before it. -/
def byte2cmdBefore (n : Nat) : Byte2cmd := run Byte2cmd.clock .reset (upTo inputs n)

def bytesBefore (n : Nat) : List (BitVec 8) := (upTo inputs n).flatMap ByteInput.bytes

def wordsBefore (n : Nat) : List (BitVec 36) :=
  log Byte2cmd.clock Byte2cmd.written .reset (upTo inputs n)

/-- The bytes are frames, one clock each and three clocks apart, and the FIFO is never full. -/
structure FramedBytes : Prop where
  spaced : ∀ n m, n < m → (inputs n).rxRdy = true → (inputs m).rxRdy = true → n + 3 ≤ m
  tagged : ∀ n, (inputs n).rxRdy = true →
    (tag (inputs n).rxData).toNat = 7 - (bytesBefore inputs n).length % 8
  room : ∀ n, (inputs n).sCmdFifoFull = false

theorem byte2cmdBefore_succ (n : Nat) :
    byte2cmdBefore inputs (n + 1) = (byte2cmdBefore inputs n).clock (inputs n) := by
  rw [byte2cmdBefore, upTo_succ, run_concat, byte2cmdBefore]

theorem bytesBefore_succ (n : Nat) :
    bytesBefore inputs (n + 1) = bytesBefore inputs n ++ (inputs n).bytes := by
  rw [bytesBefore, upTo_succ, List.flatMap_append, List.flatMap_singleton, bytesBefore]

theorem wordsBefore_succ (n : Nat) :
    wordsBefore inputs (n + 1) =
      wordsBefore inputs n ++ (byte2cmdBefore inputs n).written (inputs n) := by
  rw [wordsBefore, upTo_succ, log_concat, wordsBefore, byte2cmdBefore]

theorem bytesBefore_mono {n m : Nat} (later : n ≤ m) :
    bytesBefore inputs n <+: bytesBefore inputs m := by
  obtain ⟨gap, rfl⟩ := Nat.exists_eq_add_of_le later
  induction gap with
  | zero => exact List.prefix_refl _
  | succ gap inductionHypothesis =>
    rw [← Nat.add_assoc, bytesBefore_succ]
    exact (inductionHypothesis (Nat.le_add_right _ _)).trans (List.prefix_append _ _)

theorem length_bytesBefore_le (n : Nat) : (bytesBefore inputs n).length ≤ n := by
  induction n with
  | zero => exact le_rfl
  | succ n inductionHypothesis =>
    have one : (inputs n).bytes.length ≤ 1 := by
      unfold ByteInput.bytes
      split_ifs <;> simp
    rw [bytesBefore_succ, List.length_append]
    exact Nat.add_le_add inductionHypothesis one

theorem wordsBefore_mono {n m : Nat} (later : n ≤ m) :
    wordsBefore inputs n <+: wordsBefore inputs m :=
  log_upTo_prefix Byte2cmd.clock Byte2cmd.written .reset inputs later

/-- Between moments with different numbers of bytes a byte comes. -/
theorem exists_byte_between {n m : Nat}
    (more : (bytesBefore inputs n).length < (bytesBefore inputs m).length) :
    ∃ i, n ≤ i ∧ i < m ∧ (inputs i).rxRdy = true := by
  induction m with
  | zero => cases more
  | succ m inductionHypothesis =>
    cases ready : (inputs m).rxRdy with
    | true =>
      refine ⟨m, Nat.le_of_not_lt fun less => ?_, m.lt_succ_self, ready⟩
      exact absurd (bytesBefore_mono inputs less).length_le (Nat.not_le_of_lt more)
    | false =>
      rw [bytesBefore_succ, ByteInput.bytes, ready, if_neg Bool.false_ne_true, List.append_nil]
        at more
      obtain ⟨i, after, before, here⟩ := inductionHypothesis more
      exact ⟨i, after, Nat.lt_succ_of_lt before, here⟩

/-- The last byte of a frame comes at a clock. -/
def FrameEnds (t : Nat) : Prop :=
  (inputs t).rxRdy = true ∧ (bytesBefore inputs (t + 1)).length % 8 = 0

instance (t : Nat) : Decidable (FrameEnds inputs t) := inferInstanceAs (Decidable (_ ∧ _))

/-- A frame has eight bytes. -/
theorem FrameEnds.eight {t : Nat} (ends : FrameEnds inputs t) :
    8 ≤ (bytesBefore inputs (t + 1)).length := by
  have positive : 0 < (bytesBefore inputs (t + 1)).length := by
    simp [bytesBefore_succ, ByteInput.bytes, ends.1]
  exact Nat.le_of_dvd positive (Nat.dvd_of_mod_eq_zero ends.2)

/-- A frame that is stored is followed. -/
theorem FrameEnds.more_of_stored {t n : Nat} (ends : FrameEnds inputs t)
    (stored : frameWords (bytesBefore inputs (t + 1)) <+:
      frameWords (bytesBefore inputs n).dropLast) :
    (bytesBefore inputs (t + 1)).length < (bytesBefore inputs n).length := by
  have eight := ends.eight inputs
  have whole := ends.2
  have length := stored.length_le
  rw [length_frameWords, length_frameWords, List.length_dropLast] at length
  omega

/-- The word of every complete frame is stored within so many clocks of its last byte. -/
def Timely (bound : Nat) : Prop :=
  ∀ t, FrameEnds inputs t →
    frameWords (bytesBefore inputs (t + 1)) <+: wordsBefore inputs (t + 1 + bound)

/-- The words are those of the complete frames, one for each and in their order, stored within so
many clocks of a frame's last byte and without another byte. -/
structure AssemblesFrames (bound : Nat) : Prop where
  order : ∀ n, wordsBefore inputs n <+: frameWords (bytesBefore inputs n)
  timely : Timely inputs bound
  unaided : ∀ t, FrameEnds inputs t → ∃ n,
    bytesBefore inputs n = bytesBefore inputs (t + 1) ∧
      frameWords (bytesBefore inputs (t + 1)) <+: wordsBefore inputs n

end Runs

section Framed

variable {inputs : Nat → ByteInput} (framed : FramedBytes inputs)

include framed

theorem FramedBytes.tag_bytesBefore (n : Nat) :
    ∀ m (inside : m < (bytesBefore inputs n).length),
      (tag (bytesBefore inputs n)[m]).toNat = 7 - m % 8 := by
  induction n with
  | zero => exact fun m inside => absurd inside (Nat.not_lt_zero m)
  | succ n inductionHypothesis =>
    intro m inside
    have more := bytesBefore_succ inputs n
    cases ready : (inputs n).rxRdy with
    | false =>
      have same : bytesBefore inputs (n + 1) = bytesBefore inputs n := by
        simp [more, ByteInput.bytes, ready]
      simp only [same] at inside ⊢
      exact inductionHypothesis m inside
    | true =>
      have next : bytesBefore inputs (n + 1) = bytesBefore inputs n ++ [(inputs n).rxData] := by
        simp [more, ByteInput.bytes, ready]
      simp only [next, List.length_append, List.length_singleton] at inside ⊢
      rcases Nat.lt_or_eq_of_le (Nat.le_of_lt_succ inside) with earlier | rfl
      · rw [List.getElem_append_left earlier]
        exact inductionHypothesis m earlier
      · rw [List.getElem_append_right le_rfl]
        simpa using framed.tagged n ready

/-- In `S1` a byte has just come, so none comes now. -/
theorem FramedBytes.silent_of_s1 {n : Nat} (now : (byte2cmdBefore inputs n).cmdState = .s1) :
    (inputs n).rxRdy = false := by
  cases n with
  | zero => cases now
  | succ n =>
    rw [byte2cmdBefore_succ, Byte2cmd.clock] at now
    cases ready : (inputs n).rxRdy with
    | true =>
      by_contra next
      have apart := framed.spaced n (n + 1) n.lt_succ_self ready (eq_true_of_ne_false next)
      omega
    | false =>
      cases before : (byte2cmdBefore inputs n).cmdState with
      | s0 => simp [before, ready] at now
      | s1 => simp [before] at now

theorem FramedBytes.assembling (n : Nat) :
    Assembling (byte2cmdBefore inputs n) (bytesBefore inputs n) (wordsBefore inputs n) := by
  induction n with
  | zero => exact assembling_reset
  | succ n inductionHypothesis =>
    have room := framed.room n
    rw [byte2cmdBefore_succ, bytesBefore_succ, wordsBefore_succ]
    cases ready : (inputs n).rxRdy with
    | false =>
      have next := inductionHypothesis.silent ready room
      rwa [ByteInput.bytes, ready, if_neg Bool.false_ne_true, List.append_nil]
    | true =>
      have now : (byte2cmdBefore inputs n).cmdState = .s0 := by
        cases state : (byte2cmdBefore inputs n).cmdState with
        | s0 => rfl
        | s1 => cases ready.symm.trans (framed.silent_of_s1 state)
      rw [ByteInput.bytes, if_pos ready]
      exact inductionHypothesis.byte now ready room (framed.tag_bytesBefore n)

/-- Two clocks later the words of the bytes before the last one are stored, and no others. -/
theorem FramedBytes.wordsBefore_eq (n : Nat) :
    wordsBefore inputs (n + 2) = frameWords (bytesBefore inputs n).dropLast := by
  have here := framed.assembling n
  have next := framed.assembling (n + 1)
  rw [wordsBefore_succ, Byte2cmd.written_eq (framed.room (n + 1))]
  cases now : (byte2cmdBefore inputs n).cmdState with
  | s0 =>
    have quiet : (byte2cmdBefore inputs (n + 1)).sCmdFifoWrreq = false := by
      rw [byte2cmdBefore_succ, Byte2cmd.clock, now]
      dsimp only
      split_ifs <;> rfl
    rw [quiet, if_neg Bool.false_ne_true, List.append_nil, wordsBefore_succ,
      Byte2cmd.written_eq (framed.room n), here.told now]
  | s1 =>
    have same : bytesBefore inputs (n + 1) = bytesBefore inputs n := by
      simp [bytesBefore_succ, ByteInput.bytes, framed.silent_of_s1 now]
    have after : (byte2cmdBefore inputs (n + 1)).cmdState = .s0 := by
      rw [byte2cmdBefore_succ, Byte2cmd.clock, now]
    rw [next.told after, same]

/-- No word is stored that is not that of a frame before the last byte. -/
theorem FramedBytes.wordsBefore_dropLast (n : Nat) :
    wordsBefore inputs n <+: frameWords (bytesBefore inputs n).dropLast := by
  rw [← framed.wordsBefore_eq]
  exact wordsBefore_mono inputs (Nat.le_add_right n 2)

/-- A frame that is followed is stored at the third clock from the next byte on. -/
theorem FramedBytes.stored_of_byte {t m : Nat} (later : t < m) (ready : (inputs m).rxRdy = true) :
    frameWords (bytesBefore inputs (t + 1)) <+: wordsBefore inputs (m + 3) := by
  have next : bytesBefore inputs (m + 1) = bytesBefore inputs m ++ [(inputs m).rxData] := by
    rw [bytesBefore_succ, ByteInput.bytes, if_pos ready]
  rw [framed.wordsBefore_eq (m + 1), next, List.dropLast_concat]
  exact frameWords_mono (bytesBefore_mono inputs later)

/-- The bound is kept exactly when every frame is followed by a byte at least two clocks before it
runs out. -/
theorem FramedBytes.timely_iff (bound : Nat) :
    Timely inputs bound ↔
      ∀ t, FrameEnds inputs t → ∃ m, t < m ∧ m + 2 ≤ t + bound ∧ (inputs m).rxRdy = true := by
  constructor
  · intro timely t ends
    have first := (ends.eight inputs).trans (length_bytesBefore_le inputs (t + 1))
    have stored := timely t ends
    obtain ⟨n, last⟩ : ∃ n, t + 1 + bound = n + 2 := ⟨t + bound - 1, by omega⟩
    rw [last, framed.wordsBefore_eq] at stored
    obtain ⟨m, after, before, ready⟩ :=
      exists_byte_between inputs (ends.more_of_stored inputs stored)
    exact ⟨m, after, by omega, ready⟩
  · intro followed t ends
    obtain ⟨m, later, within, ready⟩ := followed t ends
    exact (framed.stored_of_byte later ready).trans (wordsBefore_mono inputs (by omega))

/-- The frames are assembled as they should be exactly when there is none. What fails is that a
frame waits for the next one: the words and their order are right, and a bound is kept exactly when
every frame is followed by a byte at least two clocks before it runs out. -/
theorem assemblesFrames_iff (bound : Nat) :
    (AssemblesFrames inputs bound ↔ ∀ t, ¬FrameEnds inputs t) ∧
      (∀ n, wordsBefore inputs n <+: frameWords (bytesBefore inputs n)) ∧
      (Timely inputs bound ↔
        ∀ t, FrameEnds inputs t →
          ∃ m, t < m ∧ m + 2 ≤ t + bound ∧ (inputs m).rxRdy = true) := by
  have order : ∀ n, wordsBefore inputs n <+: frameWords (bytesBefore inputs n) := fun n =>
    (framed.wordsBefore_dropLast n).trans (frameWords_mono (List.dropLast_prefix _))
  refine ⟨⟨fun assembles t ends => ?_, fun noFrame => ?_⟩, order, framed.timely_iff bound⟩
  · obtain ⟨n, same, stored⟩ := assembles.unaided t ends
    have more := ends.more_of_stored inputs (stored.trans (framed.wordsBefore_dropLast n))
    exact Nat.lt_irrefl _ (same ▸ more)
  · exact ⟨order, fun t ends => absurd ends (noFrame t), fun t ends => absurd ends (noFrame t)⟩

end Framed

/-! ### Frame after frame -/

/-- A byte at every third clock. -/
def streamedFrames (n : Nat) : ByteInput :=
  ⟨BitVec.ofNat 8 (32 * (7 - n / 3 % 8)), decide (n % 3 = 0), false⟩

theorem length_bytesBefore_streamedFrames (n : Nat) :
    (bytesBefore streamedFrames n).length = (n + 2) / 3 := by
  induction n with
  | zero => rfl
  | succ n inductionHypothesis =>
    have one : (streamedFrames n).bytes.length = if n % 3 = 0 then 1 else 0 := by
      simp only [ByteInput.bytes, streamedFrames, decide_eq_true_eq]
      split_ifs <;> rfl
    rw [bytesBefore_succ, List.length_append, inductionHypothesis, one]
    split_ifs <;> omega

theorem framedBytes_streamedFrames : FramedBytes streamedFrames where
  spaced n m less first second := by
    simp only [streamedFrames, decide_eq_true_eq] at first second
    omega
  tagged n ready := by
    have tags : ∀ k < 8, (tag (BitVec.ofNat 8 (32 * (7 - k)))).toNat = 7 - k := by decide
    simp only [streamedFrames, decide_eq_true_eq] at ready
    have place : (n + 2) / 3 = n / 3 := by omega
    rw [length_bytesBefore_streamedFrames, place]
    exact tags _ (Nat.mod_lt _ (by decide))
  room _ := rfl

/-- The words come five clocks behind the frames, each of them with the help of the next frame. -/
theorem streamed_frames_timely :
    Timely streamedFrames 5 ∧ ¬AssemblesFrames streamedFrames 5 := by
  obtain ⟨assembles, _, timely⟩ := assemblesFrames_iff framedBytes_streamedFrames 5
  refine ⟨timely.mpr fun t ends => ⟨t + 3, by omega, by omega, ?_⟩, fun all => ?_⟩
  · have now := ends.1
    simp only [streamedFrames, decide_eq_true_eq] at now ⊢
    omega
  · exact assembles.mp all 21 (by decide)

/-! ### A frame and then silence -/

/-- Eight bytes three clocks apart. -/
def loneFrame (n : Nat) : ByteInput :=
  ⟨BitVec.ofNat 8 (32 * (7 - n / 3) + n), decide (n % 3 = 0) && decide (n < 24), false⟩

theorem framedBytes_loneFrame : FramedBytes loneFrame where
  spaced n m less first second := by
    simp only [loneFrame, Bool.and_eq_true, decide_eq_true_eq] at first second
    omega
  tagged n ready := by
    have early : n < 24 := by
      simp only [loneFrame, Bool.and_eq_true, decide_eq_true_eq] at ready
      exact ready.2
    have all : ∀ k < 24, (loneFrame k).rxRdy = true →
        (tag (loneFrame k).rxData).toNat = 7 - (bytesBefore loneFrame k).length % 8 := by decide
    exact all n early ready
  room _ := rfl

theorem length_bytesBefore_loneFrame (n : Nat) : (bytesBefore loneFrame n).length ≤ 8 := by
  rcases Nat.lt_or_ge n 24 with early | late
  · exact (bytesBefore_mono loneFrame early.le).length_le.trans (by decide)
  · by_contra more
    have eight : (bytesBefore loneFrame 24).length ≤ 8 := by decide
    obtain ⟨i, after, _, ready⟩ :=
      exists_byte_between loneFrame (eight.trans_lt (Nat.lt_of_not_le more))
    simp only [loneFrame, Bool.and_eq_true, decide_eq_true_eq] at ready
    omega

/-- Its word is never stored. -/
theorem lone_frame_waits :
    FramedBytes loneFrame ∧ FrameEnds loneFrame 21 ∧
      frameWords (bytesBefore loneFrame 22) = [0xcc963e55] ∧
      (∀ n, wordsBefore loneFrame n = []) ∧ ∀ bound, ¬AssemblesFrames loneFrame bound := by
  have framed := framedBytes_loneFrame
  have ends : FrameEnds loneFrame 21 := by decide
  have word : frameWords (bytesBefore loneFrame 22) = [0xcc963e55] := by decide
  have nothing : ∀ n, wordsBefore loneFrame n = [] := by
    intro n
    have length := (framed.wordsBefore_dropLast n).length_le
    have most := length_bytesBefore_loneFrame n
    rw [length_frameWords, List.length_dropLast] at length
    exact List.eq_nil_of_length_eq_zero (by omega)
  refine ⟨framed, ends, word, nothing, fun bound assembles => ?_⟩
  have stored := assembles.timely 21 ends
  rw [nothing, word] at stored
  exact absurd (List.prefix_nil.mp stored) (List.cons_ne_nil _ _)

end K71GbE.Uart
