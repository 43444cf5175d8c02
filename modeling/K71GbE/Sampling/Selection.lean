/-
This file compares the channel mask that the host works with and the channels
that `channel_sel` forwards.

The host accepts a mask by the number of its bits, and the select value names one
channel or one group. The two agree on the masks that are such a group, and on no
others.
-/

import K71GbE.Host.Device
import K71GbE.Sampling.EndToEnd

namespace K71GbE.Sampling

open Clocked Host

/-- The register of 16 bits with `config_reg(32*7+7 DOWNTO 32*7)`. -/
def selRegister : Fin 32 := ⟨14, by decide⟩

/-- `SEL`: `config_reg(32*7+7 DOWNTO 32*7)`. -/
def configSel (config : Fin 32 → BitVec 16) : BitVec 8 := (config selRegister).extractLsb' 0 8

/-- After the select value is written to register 14, the samples of the channels whose bits are
set in the mask are forwarded, and no others. -/
def Agrees (chMask avgMask : BitVec 32) : Prop :=
  ∀ device : Device, ∀ indataQ : BitVec 256,
    forwarded
        (configSel (device.perform (.writeRegister selRegister (selectVal chMask avgMask))).config)
        indataQ =
      (setBits chMask).flatMap fun c => lanes 8 2 (part 16 indataQ c)

/-- The bits of the mask are one channel, or one aligned group of them. -/
def OneGroup (chMask : BitVec 32) : Prop :=
  ∃ g, (g + 1) * nCh chMask ≤ scopeNch ∧
    ∀ c, chMask.getLsbD c = true ↔ g * nCh chMask ≤ c ∧ c < (g + 1) * nCh chMask

/-! ### The select value -/

/-- `avgMask` does not reach `SEL`. -/
theorem configSel_perform (device : Device) (chMask avgMask : BitVec 32) :
    configSel (device.perform (.writeRegister selRegister (selectVal chMask avgMask))).config =
      (selectChannel chMask).setWidth 8 := by
  have written :
      (device.perform (.writeRegister selRegister (selectVal chMask avgMask))).config selRegister =
        (selectVal chMask avgMask).setWidth 16 := by
    simp only [Device.perform, Function.update_self]
  rw [configSel, written, selectVal]
  refine BitVec.eq_of_getLsbD_eq fun bit small => ?_
  simp [small, show bit < 16 by omega]

theorem firstChannel_le (chMask : BitVec 32) (fuel : Nat) {val : Nat} (inside : val ≤ 16) :
    firstChannel chMask fuel val ≤ 16 := by
  induction fuel generalizing val with
  | zero => exact inside
  | succ fuel inductionHypothesis =>
    rw [firstChannel]
    split_ifs with next
    · exact inductionHypothesis next.2
    · exact inside

/-- Every select value of the host names a channel or a group. -/
theorem valid_selectChannel {chMask : BitVec 32} (accepted : Accepted chMask) :
    Valid ((selectChannel chMask).setWidth 8) := by
  have counts : nCh chMask = 1 ∨ nCh chMask = 4 ∨ nCh chMask = 8 ∨ nCh chMask = 16 := by
    have known := accepted.2
    omega
  unfold selectChannel
  rcases counts with one | four | eight | sixteen
  · have all : ∀ val ≤ 16, Valid ((BitVec.ofNat 32 val).setWidth 8) := by decide
    rw [one]
    exact all _ (firstChannel_le chMask 16 (Nat.zero_le 16))
  · rw [four]
    show Valid (BitVec.setWidth 8 (0x0010 ||| _ ||| _ ||| _ ||| _))
    split_ifs <;> decide
  · rw [eight]
    show Valid (BitVec.setWidth 8 (0x0020 ||| _ ||| _))
    split_ifs <;> decide
  · rw [sixteen]
    show Valid (BitVec.setWidth 8 (0x0030 : BitVec 32))
    decide

/-! ### From samples back to channels -/

theorem flatMap_lanes_injective {first second : List (BitVec 16)}
    (same : first.flatMap (lanes 8 2) = second.flatMap (lanes 8 2)) : first = second := by
  have lengths := congrArg List.length same
  rw [length_flatMap_lanes, length_flatMap_lanes] at lengths
  refine List.ext_getElem (by omega) fun i inside inside' => ?_
  rw [← ibufsd_lanes inside, ← ibufsd_lanes inside', same]

/-- Lists of channels whose samples are the same in every word are the same. -/
theorem channels_eq_of_samples {selected masked : List Nat} (low : ∀ c ∈ selected, c < 16)
    (same : ∀ indataQ : BitVec 256, (selected.flatMap fun c => lanes 8 2 (part 16 indataQ c)) =
      masked.flatMap fun c => lanes 8 2 (part 16 indataQ c)) : selected = masked := by
  -- The sample of each channel is told by its number, and beyond the word there are zeros.
  let numbered : BitVec 256 := ofLanes ((List.range 16).map fun c => BitVec.ofNat 16 (c + 1))
  have number : ∀ c < 16, part 16 numbered c = BitVec.ofNat 16 (c + 1) := fun c small => by
    rw [part_ofLanes _ (by omega) (by simpa using small), List.getElem_map, List.getElem_range]
  have beyond : ∀ c, 16 ≤ c → part 16 numbered c = 0#16 := fun c large => by
    refine BitVec.eq_of_getLsbD_eq fun bit _ => ?_
    rw [getLsbD_part, BitVec.getLsbD_of_ge numbered _ (by omega), Bool.and_false,
      BitVec.getLsbD_zero]
  have samples : selected.map (part 16 numbered) = masked.map (part 16 numbered) := by
    refine flatMap_lanes_injective ?_
    rw [List.flatMap_map, List.flatMap_map]
    exact same numbered
  have lengths : selected.length = masked.length := by
    simpa only [List.length_map] using congrArg List.length samples
  refine List.ext_getElem lengths fun i inside inside' => ?_
  have small := low _ (List.getElem_mem inside)
  have sample : part 16 numbered masked[i] = BitVec.ofNat 16 (selected[i] + 1) := by
    rw [← number _ small, ← List.getElem_map (part 16 numbered) (h := by simpa using inside'),
      ← List.getElem_map (part 16 numbered) (h := by simpa using inside)]
    exact (List.getElem_of_eq samples _).symm
  rcases Nat.lt_or_ge masked[i] 16 with small' | large
  · rw [number _ small'] at sample
    have value := congrArg BitVec.toNat sample
    rw [BitVec.toNat_ofNat, BitVec.toNat_ofNat, Nat.mod_eq_of_lt (by omega),
      Nat.mod_eq_of_lt (by omega)] at value
    omega
  · rw [beyond _ large] at sample
    have value := congrArg BitVec.toNat sample
    rw [BitVec.toNat_ofNat, BitVec.toNat_ofNat, Nat.zero_mod, Nat.mod_eq_of_lt (by omega)] at value
    omega

/-- The host and `channel_sel` agree where the channels of the select value are those of the
mask. -/
theorem agrees_iff_channels {chMask : BitVec 32} (accepted : Accepted chMask)
    (avgMask : BitVec 32) :
    Agrees chMask avgMask ↔ channels ((selectChannel chMask).setWidth 8) = setBits chMask := by
  have valid := valid_selectChannel accepted
  unfold Agrees
  simp only [configSel_perform, forwarded_eq valid]
  constructor
  · intro same
    exact channels_eq_of_samples (channels_lt valid) (same ⟨fun _ => 0, fun _ => 0⟩)
  · intro same _ _
    rw [same]

/-! ### Groups -/

/-- The channels of a selection are a group that starts at a multiple of its size. -/
theorem exists_group {sel : BitVec 8} (valid : Valid sel) :
    ∃ g, (g + 1) * (channels sel).length ≤ scopeNch ∧
      ∀ c, c ∈ channels sel ↔
        g * (channels sel).length ≤ c ∧ c < (g + 1) * (channels sel).length := by
  have offset := selOffset_lt sel
  unfold channels scopeNch
  cases selected : route sel with
  | fifo16 =>
    have inside : (selOffset sel + 1) * 1 ≤ 16 := by
      rw [Nat.mul_one]
      exact offset
    refine ⟨selOffset sel, inside, fun c => ?_⟩
    rw [List.length_singleton, List.mem_singleton]
    omega
  | fifo64 =>
    have small := valid.2 selected
    have length : ((List.range 4).map (4 * selOffset sel + ·)).length = 4 := rfl
    refine ⟨selOffset sel, by rw [length]; omega, fun c => ?_⟩
    rw [length, List.mem_map]
    constructor
    · rintro ⟨k, below, rfl⟩
      rw [List.mem_range] at below
      omega
    · rintro ⟨above, below⟩
      exact ⟨c - 4 * selOffset sel, List.mem_range.mpr (by omega), by omega⟩
  | fifo128 =>
    have length : ∀ first, ((List.range 8).map (first + ·)).length = 8 := fun _ => rfl
    refine ⟨if selOffset sel = 1 then 1 else 0, by rw [length]; split_ifs <;> omega, fun c => ?_⟩
    rw [length, List.mem_map]
    constructor
    · rintro ⟨k, below, rfl⟩
      rw [List.mem_range] at below
      split_ifs <;> omega
    · rintro ⟨above, below⟩
      refine ⟨c - if selOffset sel = 1 then 8 else 0, List.mem_range.mpr ?_, ?_⟩
      all_goals
        split_ifs at above below ⊢ <;> omega
  | direct =>
    refine ⟨0, by simp, fun c => ?_⟩
    rw [List.mem_range, List.length_range]
    omega
  | others => exact absurd selected valid.1

/-- The mask of group `g` of `n` channels. -/
def groupMask (n g : Nat) : BitVec 32 := BitVec.ofNat 32 (2 ^ n - 1) <<< (g * n)

theorem getLsbD_groupMask {n g : Nat} (inside : (g + 1) * n ≤ 16) (c : Nat) :
    (groupMask n g).getLsbD c = true ↔ g * n ≤ c ∧ c < (g + 1) * n := by
  rw [Nat.succ_mul] at inside ⊢
  rw [groupMask, BitVec.getLsbD_shiftLeft, BitVec.getLsbD_ofNat, Nat.testBit_two_pow_sub_one]
  simp only [Bool.and_eq_true, Bool.not_eq_true', decide_eq_true_eq, decide_eq_false_iff_not]
  omega

theorem OneGroup.eq_groupMask {chMask : BitVec 32} (group : OneGroup chMask) :
    ∃ g, (g + 1) * nCh chMask ≤ 16 ∧ chMask = groupMask (nCh chMask) g := by
  obtain ⟨g, inside, bits⟩ := group
  refine ⟨g, inside, BitVec.eq_of_getLsbD_eq fun c _ => ?_⟩
  rw [Bool.eq_iff_iff, bits, getLsbD_groupMask inside]

/-- For every group the select value names its channels. -/
theorem channels_groupMask :
    ∀ n ∈ [1, 4, 8, 16], ∀ g < 16 / n,
      channels ((selectChannel (groupMask n g)).setWidth 8) = setBits (groupMask n g) := by
  decide +kernel

/-- The channels that are forwarded are those of the mask exactly when the mask is one channel,
four from a multiple of four on, the low or the high eight, or all sixteen. -/
theorem agrees_iff_oneGroup {chMask : BitVec 32} (accepted : Accepted chMask)
    (avgMask : BitVec 32) : Agrees chMask avgMask ↔ OneGroup chMask := by
  rw [agrees_iff_channels accepted]
  constructor
  · intro same
    obtain ⟨g, inside, members⟩ := exists_group (valid_selectChannel accepted)
    rw [same, ← nCh_eq] at inside members
    exact ⟨g, inside, fun c => (mem_setBits chMask c).symm.trans (members c)⟩
  · intro group
    obtain ⟨g, inside, mask⟩ := group.eq_groupMask
    have known := accepted.2
    have counted : nCh chMask ∈ [1, 4, 8, 16] := by
      simp only [List.mem_cons, List.not_mem_nil, or_false]
      omega
    have positive : 0 < nCh chMask := by
      rcases List.mem_cons.mp counted with one | more
      · omega
      · simp only [List.mem_cons, List.not_mem_nil, or_false] at more
        omega
    have bound : g < 16 / nCh chMask := (Nat.le_div_iff_mul_le positive).mpr inside
    have same := channels_groupMask _ counted g bound
    rwa [← mask] at same

theorem agrees_iff_oneGroup_sample :
    Accepted 0x0f00 ∧ (Agrees 0x0f00 0 ↔ OneGroup 0x0f00) ∧ OneGroup 0x0f00 :=
  have accepted : Accepted 0x0f00 := by decide
  have group : OneGroup 0x0f00 :=
    ⟨2, by decide, fun c => getLsbD_groupMask (n := 4) (g := 2) (by decide) c⟩
  ⟨accepted, agrees_iff_oneGroup accepted 0, group⟩

/-- With bits in two groups, the channels of one of them are forwarded: 4 to 7 for the mask of
0, 1, 4 and 5. -/
theorem two_groups_disagree :
    Accepted 0x33 ∧ setBits (0x33 : BitVec 32) = [0, 1, 4, 5] ∧
      channels ((selectChannel 0x33).setWidth 8) = [4, 5, 6, 7] ∧ ¬Agrees 0x33 0 := by
  have accepted : Accepted 0x33 := by decide
  refine ⟨accepted, by decide, by decide, fun same => ?_⟩
  have channels := (agrees_iff_channels accepted 0).mp same
  revert channels
  decide

end K71GbE.Sampling
