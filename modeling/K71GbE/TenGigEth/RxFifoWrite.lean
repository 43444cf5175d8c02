/-
This file is about the write side of the receive FIFO, which cannot hold the MAC
back and drops the frames that arrive with an error.

The last beat that has arrived waits in a register for the next one, or for the end
of its frame. When a frame is dropped the write pointer goes back, but the register
is not cleared: if that beat used all lanes, the first beat of the next frame pushes
it into the RAM.
-/

import Mathlib.Data.List.Chain
import K71GbE.TenGigEth.FifoStreams

namespace K71GbE.TenGigEth

open Clocked

/-! ### What has arrived -/

/-- The beat on the write interface, if there is one. -/
def WrAxis.word (axis : WrAxis) : List TxBeat :=
  if axis.tvalid && axis.tkeep.getLsbD 0 then [⟨axis.tdata, axis.tkeep, false⟩] else []

/-- The beats of a frame with the last one marked. -/
def ended (beats : List TxBeat) : List TxBeat :=
  match beats.getLast? with
  | none => []
  | some last => beats.dropLast ++ [{ last with tlast := true }]

/-- What a dropped frame leaves in the register for the next one. -/
def leftBy (beats : List TxBeat) : List TxBeat :=
  match beats.getLast? with
  | none => []
  | some last => if last.tkeep = 0b11111111 then [last] else []

/-- What has arrived from the MAC: the beats that are kept, what the frame dropped last has left in
the register, the beats of the frame under way, and the edges since the last end of a frame. -/
structure Arrived where
  kept : List TxBeat
  left : List TxBeat
  frame : List TxBeat
  age : Nat
deriving DecidableEq, Repr

namespace Arrived

variable (arrived : Arrived) (axis : WrAxis)

/-- Nothing has arrived, and for some time. -/
def nothing : Arrived := ⟨[], [], [], 2⟩

/-- The beats behind those that are kept. -/
def waiting : List TxBeat := arrived.left ++ arrived.frame

/-- After an edge of the write clock. -/
def next : Arrived :=
  if axis.tlast then
    if axis.tuser then ⟨arrived.kept ++ ended (arrived.waiting ++ axis.word), [], [], 0⟩
    else ⟨arrived.kept, leftBy (arrived.waiting ++ axis.word), [], 0⟩
  else ⟨arrived.kept, arrived.left, arrived.frame ++ axis.word, arrived.age + 1⟩

/-- What the MAC keeps to. Its frames come in full beats but for the last one; the end is marked on
the last beat or on a beat without data behind it, and is good or bad. Good frames have two beats at
least, and the end of a frame is three edges behind the last one. -/
structure Admits : Prop where
  last : axis.tlast = true → axis.tvalid = true
  user : axis.tuser = true → axis.tlast = true
  beat : axis.tvalid = true →
    axis.tkeep = 0 ∧ axis.tlast = true ∨
      (∃ lanes, axis.tkeep = tkeepOf lanes) ∧ ∀ beat ∈ arrived.frame, beat.tkeep = 0b11111111
  two : axis.tuser = true → 2 ≤ (arrived.frame ++ axis.word).length
  apart : axis.tlast = true → 2 ≤ arrived.age

instance : Decidable (arrived.Admits axis) :=
  decidable_of_iff
    ((axis.tlast = true → axis.tvalid = true) ∧ (axis.tuser = true → axis.tlast = true) ∧
      (axis.tvalid = true →
        axis.tkeep = 0 ∧ axis.tlast = true ∨
          (∃ lanes, axis.tkeep = tkeepOf lanes) ∧
            ∀ beat ∈ arrived.frame, beat.tkeep = 0b11111111) ∧
      (axis.tuser = true → 2 ≤ (arrived.frame ++ axis.word).length) ∧
      (axis.tlast = true → 2 ≤ arrived.age))
    ⟨fun ⟨last, user, beat, two, apart⟩ => ⟨last, user, beat, two, apart⟩,
      fun ⟨last, user, beat, two, apart⟩ => ⟨last, user, beat, two, apart⟩⟩

end Arrived

theorem ended_concat (before : List TxBeat) (last : TxBeat) :
    ended (before ++ [last]) = before ++ [{ last with tlast := true }] := by
  simp [ended]

theorem leftBy_concat (before : List TxBeat) (last : TxBeat) :
    leftBy (before ++ [last]) = if last.tkeep = 0b11111111 then [last] else [] := by
  simp [leftBy]

theorem length_ended (beats : List TxBeat) : (ended beats).length = beats.length := by
  rcases List.eq_nil_or_concat beats with rfl | ⟨before, last, rfl⟩
  · rfl
  · rw [List.concat_eq_append, ended_concat, List.length_append, List.length_append]
    rfl

/-- But for the last beat a frame is not changed. -/
theorem getElem?_ended {beats : List TxBeat} {p : Nat} (inside : p < beats.length - 1) :
    (ended beats)[p]? = beats[p]? := by
  rcases List.eq_nil_or_concat beats with rfl | ⟨before, last, rfl⟩
  · rfl
  · rw [List.concat_eq_append, List.length_append, List.length_singleton,
      Nat.add_sub_cancel] at inside
    rw [List.concat_eq_append, ended_concat, List.getElem?_append_left inside,
      List.getElem?_append_left inside]

theorem length_leftBy_le (beats : List TxBeat) : (leftBy beats).length ≤ 1 := by
  rcases List.eq_nil_or_concat beats with rfl | ⟨before, last, rfl⟩
  · exact Nat.zero_le 1
  · rw [List.concat_eq_append, leftBy_concat]
    split
    · exact le_rfl
    · exact Nat.zero_le 1

theorem mem_leftBy {beats : List TxBeat} {beat : TxBeat} (member : beat ∈ leftBy beats) :
    beat ∈ beats ∧ beat.tkeep = 0b11111111 := by
  rcases List.eq_nil_or_concat beats with rfl | ⟨before, last, rfl⟩
  · cases member
  · rw [List.concat_eq_append, leftBy_concat] at member
    split at member
    · rename_i full
      obtain rfl := List.mem_singleton.mp member
      exact ⟨by rw [List.concat_eq_append]; exact List.mem_concat_self, full⟩
    · cases member

theorem WrAxis.word_cases (axis : WrAxis) :
    axis.word = [] ∨ axis.word = [⟨axis.tdata, axis.tkeep, false⟩] := by
  rw [word]
  split
  · exact Or.inr rfl
  · exact Or.inl rfl

theorem WrAxis.length_word_le (axis : WrAxis) : axis.word.length ≤ 1 := by
  rcases axis.word_cases with noWord | oneWord
  · rw [noWord]
    exact Nat.zero_le 1
  · rw [oneWord]
    exact le_rfl

namespace Arrived

variable (arrived : Arrived) {axis : WrAxis}

theorem next_inside (inside : axis.tlast = false) :
    (arrived.next axis).kept = arrived.kept ∧
      (arrived.next axis).waiting = arrived.waiting ++ axis.word := by
  rw [next, inside]
  exact ⟨rfl, (List.append_assoc _ _ _).symm⟩

theorem next_bad (last : axis.tlast = true) (bad : axis.tuser = false) :
    (arrived.next axis).kept = arrived.kept ∧
      (arrived.next axis).waiting = leftBy (arrived.waiting ++ axis.word) := by
  rw [next, last, bad]
  exact ⟨rfl, List.append_nil _⟩

theorem next_good (last : axis.tlast = true) (good : axis.tuser = true) :
    (arrived.next axis).kept = arrived.kept ++ ended (arrived.waiting ++ axis.word) ∧
      (arrived.next axis).waiting = [] := by
  rw [next, last, good]
  exact ⟨rfl, rfl⟩

end Arrived

/-! ### The form of what has arrived -/

/-- Two ends of frames are not neighbours. -/
def Spaced (beat next : TxBeat) : Prop := beat.tlast = true → next.tlast = false

/-- Beats in frames of two beats at least, as `FramedBeats` has it for a stream. -/
structure FramedList (beats : List TxBeat) : Prop where
  first : ∀ beat ∈ beats.head?, beat.tlast = false
  spaced : beats.IsChain Spaced
  full : ∀ beat ∈ beats, beat.tlast = false → beat.tkeep = 0b11111111
  lowest : ∀ beat ∈ beats, ∃ lanes, beat.tkeep = tkeepOf lanes

theorem spaced_concat {before : List TxBeat} (inner : ∀ beat ∈ before, beat.tlast = false)
    (last : TxBeat) : (before ++ [last]).IsChain Spaced := by
  refine List.isChain_iff_getElem.mpr fun i inside ends => ?_
  rw [List.length_append, List.length_singleton] at inside
  rw [List.getElem_append_left (by omega), inner _ (List.getElem_mem _)] at ends
  cases ends

/-- A frame that is put behind others. -/
theorem FramedList.append {beats before : List TxBeat} {last : TxBeat} (framed : FramedList beats)
    (nonempty : before ≠ []) (inner : ∀ beat ∈ before, beat.tlast = false)
    (full : ∀ beat ∈ before, beat.tkeep = 0b11111111)
    (lowest : ∃ lanes, last.tkeep = tkeepOf lanes) :
    FramedList (beats ++ (before ++ [{ last with tlast := true }])) := by
  obtain ⟨head, rest, rfl⟩ := List.exists_cons_of_ne_nil nonempty
  have head_false : head.tlast = false := inner head List.mem_cons_self
  refine ⟨?_, ?_, fun beat member inside => ?_, fun beat member => ?_⟩
  · cases beats with
    | nil =>
      rintro beat ⟨⟩
      exact head_false
    | cons first others => exact framed.first
  · refine List.isChain_append.mpr ⟨framed.spaced, spaced_concat inner _, ?_⟩
    rintro beat _ next ⟨⟩ _
    exact head_false
  · rcases List.mem_append.mp member with old | new
    · exact framed.full beat old inside
    · rcases List.mem_append.mp new with early | late
      · exact full beat early
      · rw [List.mem_singleton.mp late] at inside
        cases inside
  · rcases List.mem_append.mp member with old | new
    · exact framed.lowest beat old
    · rcases List.mem_append.mp new with early | late
      · exact ⟨0b111, full beat early⟩
      · rw [List.mem_singleton.mp late]
        exact lowest

/-- The form that the beats of the MAC give to what has arrived. -/
structure Arrived.Formed (arrived : Arrived) : Prop where
  kept : FramedList arrived.kept
  inner : ∀ beat ∈ arrived.waiting, beat.tlast = false
  lowest : ∀ beat ∈ arrived.waiting, ∃ lanes, beat.tkeep = tkeepOf lanes
  left : ∀ beat ∈ arrived.left, beat.tkeep = 0b11111111
  full : ∀ beat ∈ arrived.frame.dropLast, beat.tkeep = 0b11111111
  short : arrived.frame.length ≤ arrived.age

section Form

variable {arrived : Arrived} {axis : WrAxis}

/-- A beat comes behind full ones. -/
theorem Arrived.Admits.word (admits : arrived.Admits axis) {beat : TxBeat}
    (member : beat ∈ axis.word) :
    beat.tlast = false ∧ (∃ lanes, beat.tkeep = tkeepOf lanes) ∧
      ∀ earlier ∈ arrived.frame, earlier.tkeep = 0b11111111 := by
  rw [WrAxis.word] at member
  split at member
  · rename_i data
    rw [Bool.and_eq_true] at data
    obtain rfl := List.mem_singleton.mp member
    rcases admits.beat data.1 with ⟨noLane, _⟩ | ⟨lanes, full⟩
    · have lane := data.2
      rw [noLane] at lane
      cases lane
    · exact ⟨rfl, lanes, full⟩
  · cases member

/-- A good frame has a beat before its last one. -/
theorem Arrived.Admits.exists_concat (admits : arrived.Admits axis) (good : axis.tuser = true) :
    ∃ before last, before ≠ [] ∧ arrived.waiting ++ axis.word = before ++ [last] := by
  have two := admits.two good
  rw [List.length_append] at two
  have length : 2 ≤ (arrived.waiting ++ axis.word).length := by
    rw [waiting, List.length_append, List.length_append]
    omega
  rcases List.eq_nil_or_concat (arrived.waiting ++ axis.word) with empty | ⟨before, last, split⟩
  · rw [empty] at length
    exact absurd length (by decide)
  · rw [List.concat_eq_append] at split
    refine ⟨before, last, ?_, split⟩
    rintro rfl
    rw [split] at length
    exact absurd length (by decide : ¬2 ≤ 1)

variable (formed : arrived.Formed)

include formed

/-- All that waits is full but for the last beat. -/
theorem Arrived.Formed.dropLast {beat : TxBeat} (member : beat ∈ arrived.waiting.dropLast) :
    beat.tkeep = 0b11111111 := by
  rw [waiting] at member
  rcases eq_or_ne arrived.frame [] with empty | nonempty
  · rw [empty, List.append_nil] at member
    exact formed.left beat (List.mem_of_mem_dropLast member)
  · rw [List.dropLast_append_of_ne_nil nonempty] at member
    rcases List.mem_append.mp member with old | new
    · exact formed.left beat old
    · exact formed.full beat new

/-- And stays so when a beat comes. -/
theorem Arrived.Formed.dropLast_word (admits : arrived.Admits axis) {beat : TxBeat}
    (member : beat ∈ (arrived.waiting ++ axis.word).dropLast) : beat.tkeep = 0b11111111 := by
  rcases eq_or_ne axis.word [] with noWord | anyWord
  · rw [noWord, List.append_nil] at member
    exact formed.dropLast member
  · obtain ⟨word, others⟩ := List.exists_mem_of_ne_nil _ anyWord
    have full := (admits.word others).2.2
    have single : axis.word.dropLast = [] := by
      rw [WrAxis.word]
      split <;> rfl
    rw [List.dropLast_append_of_ne_nil anyWord, single, List.append_nil, waiting] at member
    rcases List.mem_append.mp member with old | new
    · exact formed.left beat old
    · exact full beat new

theorem Arrived.Formed.inner_word (admits : arrived.Admits axis) {beat : TxBeat}
    (member : beat ∈ arrived.waiting ++ axis.word) :
    beat.tlast = false ∧ ∃ lanes, beat.tkeep = tkeepOf lanes := by
  rcases List.mem_append.mp member with old | new
  · exact ⟨formed.inner beat old, formed.lowest beat old⟩
  · exact ⟨(admits.word new).1, (admits.word new).2.1⟩

/-- The beats of a good frame. -/
theorem Arrived.Formed.kept_append (admits : arrived.Admits axis) (good : axis.tuser = true) :
    FramedList (arrived.kept ++ ended (arrived.waiting ++ axis.word)) := by
  obtain ⟨before, last, several, split⟩ := admits.exists_concat good
  have inner {beat : TxBeat} (member : beat ∈ before ++ [last]) :=
    formed.inner_word admits (split ▸ member)
  have full {beat : TxBeat} (member : beat ∈ before) : beat.tkeep = 0b11111111 :=
    formed.dropLast_word admits (by rwa [split, List.dropLast_concat])
  rw [split, ended_concat]
  exact formed.kept.append several (fun beat member => (inner (List.mem_append_left _ member)).1)
    (fun beat => full) (inner List.mem_concat_self).2

theorem Arrived.Formed.next (admits : arrived.Admits axis) : (arrived.next axis).Formed := by
  rw [Arrived.next]
  split
  · split
    · rename_i good
      have noBeat {beat : TxBeat} {goal : Prop} (member : beat ∈ ([] : List TxBeat)) : goal :=
        absurd member List.not_mem_nil
      exact ⟨formed.kept_append admits good, fun _ => noBeat, fun _ => noBeat, fun _ => noBeat,
        fun _ => noBeat, le_rfl⟩
    · have left {beat : TxBeat} (member : beat ∈ leftBy (arrived.waiting ++ axis.word) ++ []) :=
        mem_leftBy (List.append_nil _ ▸ member)
      exact ⟨formed.kept, fun beat member => (formed.inner_word admits (left member).1).1,
        fun beat member => (formed.inner_word admits (left member).1).2,
        fun beat member => (mem_leftBy member).2,
        fun _ member => absurd member List.not_mem_nil, le_rfl⟩
  · have waiting : arrived.left ++ (arrived.frame ++ axis.word) = arrived.waiting ++ axis.word :=
      (List.append_assoc _ _ _).symm
    refine ⟨formed.kept, fun beat member => (formed.inner_word admits (waiting ▸ member)).1,
      fun beat member => (formed.inner_word admits (waiting ▸ member)).2, formed.left,
      fun beat member => ?_, ?_⟩
    · rcases eq_or_ne axis.word [] with noWord | anyWord
      · rw [noWord, List.append_nil] at member
        exact formed.full beat member
      · have other : beat ∈ (arrived.waiting ++ axis.word).dropLast := by
          rw [← waiting,
            List.dropLast_append_of_ne_nil (List.append_ne_nil_of_right_ne_nil _ anyWord)]
          exact List.mem_append_right _ member
        exact formed.dropLast_word admits other
    · have length := formed.short
      have one := axis.length_word_le
      rw [List.length_append]
      exact Nat.add_le_add length one

end Form

/-! ### The write side over a run -/

theorem remainder_full_iff (lanes : BitVec 3) :
    remainder (tkeepOf lanes) = 0b111 ↔ tkeepOf lanes = 0b11111111 := by
  revert lanes
  decide

namespace WrSide

variable {w : Nat}

/-- A beat is in the register. -/
def Latched (side : WrSide w) (beat : TxBeat) : Prop :=
  side.wrDataPipe = beat.tdata ∧ side.wrRem = remainder beat.tkeep

/-- The last of the beats is in the register, or nothing that would be written. -/
def Loaded (side : WrSide w) (beats : List TxBeat) : Prop :=
  beats = [] ∧ side.wrRem ≠ 0b111 ∨ ∃ before last, beats = before ++ [last] ∧ side.Latched last

/-- The register: the last beat that waits, or the last one of a frame that has just ended. -/
def Register (side : WrSide w) (arrived : Arrived) : Prop :=
  side.wrEof = false ∧ side.Loaded arrived.waiting ∨
    side.wrEof = true ∧ arrived.waiting = [] ∧ arrived.age = 0 ∧
      ∃ before last, arrived.kept = before ++ [last] ∧ last.tlast = true ∧ side.Latched last

/-- The words in the RAM: the beats that are kept and those that wait, but for the one in the
register. -/
def ramWords (side : WrSide w) (arrived : Arrived) : Nat :=
  arrived.kept.length - side.wrEof.toNat + (arrived.waiting.length - 1)

/-- What is left of a dropped frame is in the register too, if it would be written. -/
theorem Loaded.leftBy {side : WrSide w} {beats : List TxBeat} (loaded : side.Loaded beats)
    (lowest : ∀ beat ∈ beats, ∃ lanes, beat.tkeep = tkeepOf lanes) :
    side.Loaded (leftBy beats) := by
  rcases loaded with ⟨rfl, rem⟩ | ⟨before, last, rfl, latched⟩
  · exact Or.inl ⟨rfl, rem⟩
  · obtain ⟨lanes, tkeep⟩ := lowest last List.mem_concat_self
    rw [leftBy_concat]
    split
    · exact Or.inr ⟨[], last, rfl, latched⟩
    · rename_i partly
      refine Or.inl ⟨rfl, ?_⟩
      rw [latched.2, tkeep, Ne, remainder_full_iff, ← tkeep]
      exact partly

section Push

variable {side : WrSide w} {arrived : Arrived} {axis : WrAxis}
  (register : side.Register arrived) (free : side.wrFifoFull = false)

include free

theorem wrEnable_word : side.wrEnable axis = !axis.word.isEmpty := by
  rw [wrEnable, free, WrAxis.word, Bool.not_false, Bool.and_true, Bool.and_comm]
  split
  · rename_i data
    rw [data]
    rfl
  · rename_i noData
    exact Bool.eq_false_of_not_eq_true noData

include register

/-- The register behind an edge, before the end of a frame is looked at. -/
theorem Register.loaded_next (sampled : BitVec w) :
    (side.clock axis false sampled).Loaded (arrived.waiting ++ axis.word) := by
  have enable : side.wrEnable axis = _ := wrEnable_word free
  rcases axis.word_cases with noWord | oneWord
  · rw [noWord] at enable
    have data : (side.clock axis false sampled).wrDataPipe = side.wrDataPipe := by
      simp only [clock, enable]
      rfl
    rw [noWord, List.append_nil]
    rcases register with ⟨eof, loaded⟩ | ⟨eof, waiting, _⟩
    · have rem : (side.clock axis false sampled).wrRem = side.wrRem := by
        simp only [clock, enable, eof]
        rfl
      rcases loaded with ⟨empty, other⟩ | ⟨before, last, waiting, tdata, tkeep⟩
      · exact Or.inl ⟨empty, rem ▸ other⟩
      · exact Or.inr ⟨before, last, waiting, data.trans tdata, rem.trans tkeep⟩
    · have rem : (side.clock axis false sampled).wrRem = 0 := by
        simp only [clock, enable, eof]
        rfl
      refine Or.inl ⟨waiting, ?_⟩
      rw [rem]
      decide
  · rw [oneWord] at enable
    refine Or.inr ⟨arrived.waiting, _, congrArg _ oneWord, ?_, ?_⟩
    · simp only [clock, enable]
      rfl
    · simp only [clock, enable]
      rfl

theorem Register.wrEnableRam_eq (formed : arrived.Formed) (admits : arrived.Admits axis) :
    side.wrEnableRam axis =
      (side.wrEof || !arrived.waiting.isEmpty && !axis.word.isEmpty) := by
  rw [wrEnableRam, wrEnable_word free]
  rcases register with ⟨eof, ⟨waiting, rem⟩ | ⟨before, last, waiting, _, rem⟩⟩ | ⟨eof, _⟩
  · rw [eof, waiting, decide_eq_false rem]
    rfl
  · rcases eq_or_ne axis.word [] with noWord | anyWord
    · rw [noWord, eof]
      simp
    · obtain ⟨word, member⟩ := List.exists_mem_of_ne_nil _ anyWord
      have full : last.tkeep = 0b11111111 := by
        have inside : last ∈ arrived.waiting := by
          rw [waiting]
          exact List.mem_concat_self
        rcases List.mem_append.mp inside with old | new
        · exact formed.left last old
        · exact (admits.word member).2.2 last new
      rw [eof, rem, full, waiting]
      simp [remainder]
  · rw [eof, Bool.or_true, Bool.true_or]

/-- The words in the RAM behind an edge, before the end of a frame is looked at. -/
theorem Register.ramWords_next (formed : arrived.Formed) (admits : arrived.Admits axis) :
    side.ramWords arrived + (side.wrEnableRam axis).toNat =
      arrived.kept.length + ((arrived.waiting ++ axis.word).length - 1) := by
  have one := axis.length_word_le
  rw [register.wrEnableRam_eq free formed admits, ramWords, List.length_append]
  rcases register with ⟨eof, _⟩ | ⟨eof, waiting, _, before, last, kept, _⟩
  · rw [eof, Bool.false_or, Bool.toNat_false, Nat.sub_zero]
    rcases axis.word_cases with noWord | oneWord
    · rw [noWord]
      simp
    · rw [oneWord]
      cases arrived.waiting with
      | nil => rfl
      | cons first rest =>
        simp only [List.isEmpty_cons, Bool.not_false, Bool.and_self, Bool.toNat_true,
          List.length_cons, List.length_nil]
        omega
  · rw [eof, waiting, kept, List.length_append, List.length_singleton, Bool.true_or,
      Bool.toNat_true, List.length_nil]
    omega

end Push

/-- The write side when the frames that have arrived are those, and `level` of them are kept. -/
structure Receiving (side : WrSide w) (arrived : Arrived) (level : Nat) (seen : Nat → Nat) :
    Prop where
  formed : arrived.Formed
  register : side.Register arrived
  wrAddr : side.wrAddr = BitVec.ofNat w (side.ramWords arrived)
  store : side.wrStoreFrame = side.wrEof
  stored : side.wrStoreFrameReg = true → arrived.age = 1 ∧ arrived.left = []
  wrAddrLast : side.wrStoreFrameReg = false → side.wrEof = false →
    side.wrAddrLast = BitVec.ofNat w arrived.kept.length
  tog : side.wrStoreFrameTog = level.bodd
  synced : side.Synced seen
  room : side.ramWords arrived + (if arrived.age = 0 then 6 else 7) ≤ seen 4 + 2 ^ w

section Step

variable {side : WrSide w} {arrived : Arrived} {level : Nat} {seen : Nat → Nat}
  (receiving : side.Receiving arrived level seen)

include receiving

theorem Receiving.age_of_eof (eof : side.wrEof = true) :
    arrived.waiting = [] ∧ arrived.age = 0 := by
  rcases receiving.register with ⟨low, _⟩ | ⟨_, waiting, age, _⟩
  · rw [eof] at low
    cases low
  · exact ⟨waiting, age⟩

variable {axis : WrAxis} (admits : arrived.Admits axis) (free : side.wrFifoFull = false)

include admits free

omit receiving free in
/-- The end of a good frame is the only one that is stored. -/
theorem wrEof_receive (sampled : BitVec w) :
    (side.clock axis false sampled).wrEof = axis.tuser := by
  simp only [clock]
  cases good : axis.tuser with
  | false => simp
  | true =>
    have last := admits.user good
    rw [last, admits.last last]
    rfl

theorem Receiving.register_next (sampled : BitVec w) :
    (side.clock axis false sampled).Register (arrived.next axis) := by
  have loaded : (side.clock axis false sampled).Loaded (arrived.waiting ++ axis.word) :=
    receiving.register.loaded_next free sampled
  have eof : (side.clock axis false sampled).wrEof = axis.tuser := wrEof_receive admits sampled
  rw [Register, eof, Arrived.next]
  cases last : axis.tlast with
  | false =>
    have good : axis.tuser = false := Bool.eq_false_of_not_eq_true fun user => by
      rw [admits.user user] at last
      cases last
    rw [good, if_neg Bool.false_ne_true]
    refine Or.inl ⟨rfl, ?_⟩
    rw [Arrived.waiting, ← List.append_assoc]
    exact loaded
  | true =>
    rw [if_pos rfl]
    cases good : axis.tuser with
    | false =>
      rw [if_neg Bool.false_ne_true]
      refine Or.inl ⟨rfl, ?_⟩
      rw [Arrived.waiting, List.append_nil]
      exact loaded.leftBy fun beat member => (receiving.formed.inner_word admits member).2
    | true =>
      rw [if_pos rfl]
      refine Or.inr ⟨rfl, rfl, rfl, ?_⟩
      rcases loaded with ⟨empty, _⟩ | ⟨before, last, split, latched⟩
      · obtain ⟨before, last, _, split⟩ := admits.exists_concat good
        rw [empty] at split
        exact absurd split.symm (List.append_ne_nil_of_right_ne_nil _ (List.cons_ne_nil _ _))
      · refine ⟨arrived.kept ++ before, { last with tlast := true }, ?_, rfl, latched⟩
        rw [split, ended_concat, List.append_assoc]

/-- The words in the RAM after an edge. -/
theorem Receiving.ramWords_clock (sampled : BitVec w) :
    (side.clock axis false sampled).ramWords (arrived.next axis) =
      if axis.tlast && !axis.tuser then arrived.kept.length
      else side.ramWords arrived + (side.wrEnableRam axis).toNat := by
  have pushed := receiving.register.ramWords_next free receiving.formed admits
  rw [pushed, ramWords, wrEof_receive admits, Arrived.next]
  cases last : axis.tlast with
  | false =>
    have good : axis.tuser = false := Bool.eq_false_of_not_eq_true fun user => by
      rw [admits.user user] at last
      cases last
    rw [good, Arrived.waiting, Arrived.waiting, List.append_assoc]
    rfl
  | true =>
    cases good : axis.tuser with
    | false =>
      have one := length_leftBy_le (arrived.waiting ++ axis.word)
      simp only [if_true, Bool.false_eq_true, if_false, Bool.not_false, Bool.and_self,
        Bool.toNat_false, Arrived.waiting, List.append_nil] at one ⊢
      omega
    | true =>
      have several := admits.two good
      simp only [if_true, Bool.not_true, Bool.and_false, Bool.false_eq_true, if_false,
        Bool.toNat_true, Arrived.waiting, List.length_append, length_ended, List.length_nil]
        at several ⊢
      omega

theorem Receiving.wrAddr_next (sampled : BitVec w) :
    (side.clock axis false sampled).wrAddr =
      BitVec.ofNat w ((side.clock axis false sampled).ramWords (arrived.next axis)) := by
  rw [receiving.ramWords_clock admits free]
  simp only [clock, free, Bool.and_false, Bool.false_and, Bool.or_false, Bool.false_or]
  split
  · rename_i dropped
    have late := admits.apart (Bool.and_eq_true _ _ |>.mp dropped).1
    have reg : side.wrStoreFrameReg = false := Bool.eq_false_of_not_eq_true fun stored => by
      have age := (receiving.stored stored).1
      omega
    have eof : side.wrEof = false := Bool.eq_false_of_not_eq_true fun eof => by
      have age := (receiving.age_of_eof eof).2
      omega
    exact receiving.wrAddrLast reg eof
  · cases side.wrEnableRam axis with
    | false => exact receiving.wrAddr
    | true => rw [if_pos rfl, receiving.wrAddr, ofNat_succ, Bool.toNat_true]

/-- If the FIFO does not become full, eight words were free. -/
theorem Receiving.room_next (behind : seen 4 ≤ side.ramWords arrived) (eight : 8 ≤ 2 ^ w)
    (sampled : BitVec w) (still : (side.clock axis false sampled).wrFifoFull = false) :
    (side.clock axis false sampled).ramWords (arrived.next axis) +
      (if (arrived.next axis).age = 0 then 6 else 7) ≤ seen 4 + 2 ^ w := by
  have room := receiving.room
  have one := Bool.toNat_le (side.wrEnableRam axis)
  have words := receiving.ramWords_clock admits free sampled
  cases last : axis.tlast with
  | false =>
    have seven : side.ramWords arrived + 8 ≤ seen 4 + 2 ^ w := by
      by_contra less
      have full := (receiving.synced.full_iff receiving.wrAddr behind
        (by split_ifs at room <;> omega) eight).mpr (by omega)
      simp only [clock, last, Bool.false_and, Bool.false_eq_true, if_false] at still
      rw [if_pos full] at still
      cases still
    rw [last, Bool.false_and, if_neg Bool.false_ne_true] at words
    have age : (arrived.next axis).age ≠ 0 := by
      rw [Arrived.next, last]
      exact Nat.succ_ne_zero _
    rw [words, if_neg age]
    omega
  | true =>
    have late := admits.apart last
    have age : (arrived.next axis).age = 0 := by
      rw [Arrived.next, last, if_pos rfl]
      split <;> rfl
    have kept : arrived.kept.length ≤ side.ramWords arrived := by
      have eof : side.wrEof = false := Bool.eq_false_of_not_eq_true fun eof => by
        have young := (receiving.age_of_eof eof).2
        omega
      rw [ramWords, eof]
      exact Nat.le_add_right _ _
    rw [if_neg (by omega)] at room
    rw [words, if_pos age]
    split <;> omega

theorem Receiving.next (behind : seen 4 ≤ side.ramWords arrived) (eight : 8 ≤ 2 ^ w)
    (falls : ∀ i, seen (i + 1) ≤ seen i) {sampled : Nat}
    (still : (side.clock axis false (Gray.encode (BitVec.ofNat w sampled))).wrFifoFull = false) :
    (side.clock axis false (Gray.encode (BitVec.ofNat w sampled))).Receiving (arrived.next axis)
      (level + axis.tuser.toNat) (shifted sampled seen) := by
  have eofNext : (side.clock axis false (Gray.encode (BitVec.ofNat w sampled))).wrEof =
      axis.tuser := wrEof_receive admits _
  have valid : (axis.tuser && axis.tvalid && !side.wrFifoFull) = axis.tuser := by
    rw [free]
    cases good : axis.tuser with
    | false => rfl
    | true =>
      rw [admits.last (admits.user good)]
      rfl
  have room := receiving.room_next admits free behind eight _ still
  have arrives : seen 4 ≤ shifted sampled seen 4 := falls 3
  refine ⟨receiving.formed.next admits, receiving.register_next admits free _,
    receiving.wrAddr_next admits free _, ?_, fun reg => ?_, fun reg eof => ?_, ?_,
    receiving.synced.next axis false sampled, by omega⟩
  · rw [eofNext]
    exact valid
  · obtain ⟨waiting, age⟩ := receiving.age_of_eof (receiving.store.symm.trans reg)
    have inside : axis.tlast = false := Bool.eq_false_of_not_eq_true fun last => by
      have late := admits.apart last
      omega
    have left : arrived.left = [] := (List.append_eq_nil_iff.mp waiting).1
    rw [Arrived.next, inside, if_neg Bool.false_ne_true, age]
    exact ⟨rfl, left⟩
  · have before : side.wrEof = false := receiving.store.symm.trans reg
    have kept : (arrived.next axis).kept = arrived.kept := by
      rw [Arrived.next, eofNext.symm.trans eof]
      split <;> rfl
    rw [kept]
    show (if side.wrStoreFrameReg then side.wrAddr else side.wrAddrLast) = _
    cases stores : side.wrStoreFrameReg with
    | false => exact receiving.wrAddrLast stores before
    | true =>
      obtain ⟨age, left⟩ := receiving.stored stores
      have short := receiving.formed.short
      rw [if_pos rfl, receiving.wrAddr, ramWords, before, Arrived.waiting, left, List.nil_append]
      exact congrArg _ (by rw [Bool.toNat_false]; omega)
  · show (if axis.tuser && axis.tvalid && !side.wrFifoFull then !side.wrStoreFrameTog
      else side.wrStoreFrameTog) = _
    rw [valid]
    cases axis.tuser with
    | false => exact receiving.tog
    | true => rw [if_pos rfl, Bool.toNat_true, Nat.bodd_succ, receiving.tog]

end Step

/-! ### The RAM -/

/-- The RAM holds the beats that have been written and not been read. -/
def Holding (side : WrSide w) (arrived : Arrived) (ram : BitVec w → RamWord) (read : Nat) : Prop :=
  ∀ p beat, read ≤ p → p < side.ramWords arrived →
    (arrived.kept ++ arrived.waiting)[p]? = some beat → ram (BitVec.ofNat w p) = beat.ramWord

section Ram

variable {side : WrSide w} {arrived : Arrived} {level : Nat} {seen : Nat → Nat}
  (receiving : side.Receiving arrived level seen) {axis : WrAxis} (admits : arrived.Admits axis)
  (free : side.wrFifoFull = false)

include receiving admits free

/-- The beat that is pushed is the next one. -/
theorem Receiving.pushed (enabled : side.wrEnableRam axis = true) :
    ∃ beat, (arrived.kept ++ (arrived.waiting ++ axis.word))[side.ramWords arrived]? = some beat ∧
      side.ramWord = beat.ramWord := by
  rw [receiving.register.wrEnableRam_eq free receiving.formed admits] at enabled
  rcases receiving.register with ⟨eof, ⟨waiting, _⟩ | ⟨before, last, waiting, data, rem⟩⟩ |
    ⟨eof, waiting, _, before, last, kept, ends, data, rem⟩
  · rw [eof, waiting] at enabled
    cases enabled
  · have inner : last.tlast = false := by
      refine receiving.formed.inner last ?_
      rw [waiting]
      exact List.mem_concat_self
    refine ⟨last, ?_, ?_⟩
    · rw [ramWords, eof, waiting]
      simp
    · rw [ramWord, data, eof, rem, ← inner]
      rfl
  · refine ⟨last, ?_, ?_⟩
    · rw [ramWords, eof, waiting, kept]
      simp
    · rw [ramWord, data, eof, rem, ← ends]
      rfl

theorem Receiving.holding_next {ram : BitVec w → RamWord} {read : Nat}
    (holding : side.Holding arrived ram read) (room : side.ramWords arrived < read + 2 ^ w)
    (sampled : BitVec w) :
    (side.clock axis false sampled).Holding (arrived.next axis)
      (if side.wrEnableRam axis then Function.update ram side.wrAddr side.ramWord else ram)
      read := by
  have pushed := receiving.register.ramWords_next free receiving.formed admits
  have words := receiving.ramWords_clock admits free sampled
  -- before the end of a frame is looked at
  have behind : ∀ p beat, read ≤ p → p < side.ramWords arrived + (side.wrEnableRam axis).toNat →
      (arrived.kept ++ (arrived.waiting ++ axis.word))[p]? = some beat →
      (if side.wrEnableRam axis then Function.update ram side.wrAddr side.ramWord else ram)
        (BitVec.ofNat w p) = beat.ramWord := by
    intro p beat after before found
    have length : side.ramWords arrived ≤ (arrived.kept ++ arrived.waiting).length := by
      rw [ramWords, List.length_append]
      omega
    rcases Nat.lt_or_ge p (side.ramWords arrived) with old | new
    · have kept : ram (BitVec.ofNat w p) = beat.ramWord := by
        rw [← List.append_assoc, List.getElem?_append_left (by omega)] at found
        exact holding p beat after old found
      split
      · have apart : BitVec.ofNat w p ≠ side.wrAddr := fun same => by
          rw [receiving.wrAddr] at same
          exact old.ne (eq_of_ofNat_eq same (by omega) (by omega))
        rw [Function.update_of_ne apart]
        exact kept
      · exact kept
    · have enabled : side.wrEnableRam axis = true := Bool.eq_true_of_not_eq_false fun off => by
        rw [off, Bool.toNat_false] at before
        omega
      rw [enabled, Bool.toNat_true] at before
      have here : p = side.ramWords arrived := by omega
      obtain ⟨next, place, word⟩ := receiving.pushed admits free enabled
      rw [here, place, Option.some_inj] at found
      rw [if_pos enabled, here, ← receiving.wrAddr, Function.update_self, word, found]
  intro p beat after before found
  rw [words] at before
  cases last : axis.tlast with
  | false =>
    obtain ⟨kept, waiting⟩ := arrived.next_inside last
    rw [last, Bool.false_and, if_neg Bool.false_ne_true] at before
    rw [kept, waiting] at found
    exact behind p beat after before found
  | true =>
    rw [last, Bool.true_and] at before
    cases good : axis.tuser with
    | false =>
      rw [good, Bool.not_false, if_pos rfl] at before
      rw [(arrived.next_bad last good).1, List.getElem?_append_left before] at found
      refine behind p beat after (by omega) ?_
      rw [List.getElem?_append_left before]
      exact found
    | true =>
      obtain ⟨kept, waiting⟩ := arrived.next_good last good
      rw [good, Bool.not_true, if_neg Bool.false_ne_true] at before
      refine behind p beat after before ?_
      rw [kept, waiting, List.append_nil] at found
      rcases Nat.lt_or_ge p arrived.kept.length with old | new
      · rw [List.getElem?_append_left old] at found ⊢
        exact found
      · rw [List.getElem?_append_right new] at found ⊢
        rw [← getElem?_ended (by omega)]
        exact found

end Ram

end WrSide

end K71GbE.TenGigEth
