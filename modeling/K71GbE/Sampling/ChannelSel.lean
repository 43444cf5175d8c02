/-
This file models `channel_sel`: the reordering of the sixteen samples of a word,
and the selection of the channels, read as the combinational logic it describes.

The reordering is registered at the falling edge, half a clock before the
selected part is written to its FIFO, so that both see the same word.
-/

import K71GbE.Clocked.Lanes

namespace K71GbE.Sampling

open Clocked

/-- `INDATA_Q(16*j+7 DOWNTO 16*j) & INDATA_Q(16*j+15 DOWNTO 16*j+8)`: the two bytes swapped. -/
def swapBytes (sample : BitVec 16) : BitVec 16 := part 8 sample 0 ++ part 8 sample 1

/-- `indata_q_i`: sample `15 - i` with its bytes swapped at place `i`. -/
def indataQI (indataQ : BitVec 256) : BitVec 256 :=
  ofLanes ((List.range 16).map fun i => swapBytes (part 16 indataQ (15 - i)))

/-- `SEL(7 DOWNTO 4)`. -/
def selMode (sel : BitVec 8) : BitVec 4 := sel.extractLsb' 4 4

/-- `offset`: `SEL(3 DOWNTO 0)`. -/
def selOffset (sel : BitVec 8) : Nat := (sel.extractLsb' 0 4).toNat

/-- `fifo16_indata_q`. -/
def fifo16IndataQ (sel : BitVec 8) (q : BitVec 256) : BitVec 16 :=
  if selMode sel = 0 then q.extractLsb' (256 - (selOffset sel + 1) * 16) 16
  else q.extractLsb' (256 - 1 * 16) 16

/-- `fifo64_indata_q`. An offset above 3 is outside the word. -/
def fifo64IndataQ (sel : BitVec 8) (q : BitVec 256) : BitVec 64 :=
  if selMode sel = 1 then q.extractLsb' (256 - (selOffset sel + 1) * 4 * 16) 64
  else q.extractLsb' (256 - 4 * 16) 64

/-- `fifo128_indata_q`. -/
def fifo128IndataQ (sel : BitVec 8) (q : BitVec 256) : BitVec 128 :=
  if selMode sel = 2 ∧ selOffset sel = 1 then q.extractLsb' 0 128
  else q.extractLsb' (256 - 8 * 16) 128

/-- The FIFO that is written, or the word itself on `OUTDATA_FIFO_Q`. In the case of the others
no FIFO is written. -/
inductive Route where
  | fifo16 | fifo64 | fifo128 | direct | others
deriving DecidableEq, Repr

/-- The `CASE SEL(7 DOWNTO 4)` statement. -/
def route (sel : BitVec 8) : Route :=
  match (selMode sel).toNat with
  | 0 => .fifo16
  | 1 => .fifo64
  | 2 => .fifo128
  | 3 => .direct
  | _ => .others

/-- The bytes forwarded for one word at the input, the most significant byte of what is written
first. -/
def forwarded (sel : BitVec 8) (indataQ : BitVec 256) : List (BitVec 8) :=
  let q := indataQI indataQ
  match route sel with
  | .fifo16 => msbFirst 8 2 (fifo16IndataQ sel q)
  | .fifo64 => msbFirst 8 8 (fifo64IndataQ sel q)
  | .fifo128 => msbFirst 8 16 (fifo128IndataQ sel q)
  | .direct => msbFirst 8 32 q
  | .others => []

/-! ### The channels that are forwarded -/

/-- The channels of a selection, in ascending order. -/
def channels (sel : BitVec 8) : List Nat :=
  match route sel with
  | .fifo16 => [selOffset sel]
  | .fifo64 => (List.range 4).map (4 * selOffset sel + ·)
  | .fifo128 => (List.range 8).map ((if selOffset sel = 1 then 8 else 0) + ·)
  | .direct => List.range 16
  | .others => []

/-- The selections that the description names: one channel, a group of four, of eight, or all. -/
def Valid (sel : BitVec 8) : Prop :=
  route sel ≠ .others ∧ (route sel = .fifo64 → selOffset sel < 4)

instance (sel : BitVec 8) : Decidable (Valid sel) := inferInstanceAs (Decidable (_ ∧ (_ → _)))

theorem part_indataQI (indataQ : BitVec 256) {i : Nat} (inside : i < 16) :
    part 16 (indataQI indataQ) i = swapBytes (part 16 indataQ (15 - i)) := by
  have bound : i < ((List.range 16).map fun i => swapBytes (part 16 indataQ (15 - i))).length := by
    rw [List.length_map, List.length_range]
    exact inside
  rw [indataQI, part_ofLanes _ (by omega) bound, List.getElem_map, List.getElem_range]

/-- Swapped twice, by the reordering and on the way out: the low byte is the first one. -/
theorem msbFirst_swapBytes (sample : BitVec 16) :
    msbFirst 8 2 (swapBytes sample) = lanes 8 2 sample := by
  have high : part 8 (swapBytes sample) 1 = part 8 sample 0 := by
    rw [part, swapBytes, BitVec.extractLsb'_append_eq_of_le (by decide)]
    exact BitVec.extractLsb'_eq_self
  have low : part 8 (swapBytes sample) 0 = part 8 sample 1 := by
    rw [part, swapBytes, BitVec.extractLsb'_append_eq_of_add_le (by decide)]
    exact BitVec.extractLsb'_eq_self
  exact congrArg₂ (fun first second => [first, second]) high low

/-- A slice of `n` places from place `m` on carries the samples counted from the other end. -/
theorem msbFirst_slice (indataQ : BitVec 256) (m n : Nat) (inside : m + n ≤ 16) :
    msbFirst 8 (n * 2) ((indataQI indataQ).extractLsb' (m * 16) (n * 16)) =
      ((List.range n).map (16 - m - n + ·)).flatMap fun c => lanes 8 2 (part 16 indataQ c) := by
  have places : msbFirst 16 n ((indataQI indataQ).extractLsb' (m * 16) (n * 16)) =
      ((List.range n).map (16 - m - n + ·)).map fun c => swapBytes (part 16 indataQ c) := by
    refine List.ext_getElem (by simp) fun i bound _ => ?_
    rw [length_msbFirst] at bound
    simp only [msbFirst, List.getElem_reverse, getElem_lanes, length_lanes, List.getElem_map,
      List.getElem_range]
    rw [part_slice _ _ (by omega), part_indataQI indataQ (by omega)]
    congr 2
    omega
  rw [← flatMap_msbFirst (k := 8) (m := 2), places, List.flatMap_map]
  exact List.flatMap_congr fun c _ => msbFirst_swapBytes _

theorem selOffset_lt (sel : BitVec 8) : selOffset sel < 16 := (sel.extractLsb' 0 4).isLt

/-- The mode behind each route. -/
theorem selMode_of_route {sel : BitVec 8} :
    match route sel with
    | .fifo16 => selMode sel = 0
    | .fifo64 => selMode sel = 1
    | .fifo128 => selMode sel = 2
    | .direct => selMode sel = 3
    | .others => 3 < (selMode sel).toNat := by
  unfold route
  match mode : (selMode sel).toNat with
  | 0 | 1 | 2 | 3 => exact BitVec.eq_of_toNat_eq mode
  | rest + 4 =>
    show 3 < rest + 4
    omega

/-- What is forwarded are the samples of the selected channels, in ascending order, each with its
low byte first. -/
theorem forwarded_eq {sel : BitVec 8} (valid : Valid sel) (indataQ : BitVec 256) :
    forwarded sel indataQ = (channels sel).flatMap fun c => lanes 8 2 (part 16 indataQ c) := by
  have mode := @selMode_of_route sel
  have offset := selOffset_lt sel
  obtain ⟨known, group⟩ := valid
  unfold forwarded channels
  cases selected : route sel with
  | fifo16 =>
    rw [selected] at mode
    have start : 256 - (selOffset sel + 1) * 16 = (15 - selOffset sel) * 16 := by omega
    have first : 16 - (15 - selOffset sel) - 1 = selOffset sel := by omega
    have slice := msbFirst_slice indataQ (15 - selOffset sel) 1 (by omega)
    rw [first] at slice
    show msbFirst 8 2 (fifo16IndataQ sel (indataQI indataQ)) = _
    rw [fifo16IndataQ, if_pos mode, start]
    exact slice
  | fifo64 =>
    rw [selected] at mode
    have small := group selected
    have start : 256 - (selOffset sel + 1) * 4 * 16 = (12 - 4 * selOffset sel) * 16 := by omega
    have first : 16 - (12 - 4 * selOffset sel) - 4 = 4 * selOffset sel := by omega
    have slice := msbFirst_slice indataQ (12 - 4 * selOffset sel) 4 (by omega)
    rw [first] at slice
    show msbFirst 8 8 (fifo64IndataQ sel (indataQI indataQ)) = _
    rw [fifo64IndataQ, if_pos mode, start]
    exact slice
  | fifo128 =>
    rw [selected] at mode
    show msbFirst 8 16 (fifo128IndataQ sel (indataQI indataQ)) = _
    rw [fifo128IndataQ]
    by_cases high : selOffset sel = 1
    · rw [if_pos ⟨mode, high⟩, if_pos high]
      exact msbFirst_slice indataQ 0 8 (by decide)
    · rw [if_neg fun both => high both.2, if_neg high]
      exact msbFirst_slice indataQ 8 8 (by decide)
  | direct =>
    have whole : (indataQI indataQ).extractLsb' (0 * 16) (16 * 16) = indataQI indataQ :=
      BitVec.extractLsb'_eq_self
    have slice := msbFirst_slice indataQ 0 16 (by decide)
    rw [whole] at slice
    exact slice
  | others => exact absurd selected known

end K71GbE.Sampling
