/-
This file is about words that are taken apart into lanes and put together again,
as a bus, a memory or a FIFO of another width does it.

The lanes of a word are listed from the least significant one. Taking apart and
putting together are inverse where the lanes fill the word, and taking apart in
two stages is taking apart at once.
-/

import K71GbE.Clocked.Parts

namespace Clocked

variable {w k m n : Nat}

/-- The first `n` parts of a word, the least significant one first. -/
def lanes (k n : Nat) (word : BitVec w) : List (BitVec k) := (List.range n).map (part k word)

/-- The word with the given parts, the least significant one first. -/
def ofLanes : List (BitVec k) → BitVec w
  | [] => 0
  | lane :: rest => ofLanes rest <<< k ||| lane.setWidth w

@[simp] theorem length_lanes (word : BitVec w) : (lanes k n word).length = n := by
  rw [lanes, List.length_map, List.length_range]

theorem getElem_lanes (word : BitVec w) {i : Nat} (inside : i < (lanes k n word).length) :
    (lanes k n word)[i] = part k word i := by
  simp [lanes]

/-- A part that does not leave the word is met again in the word put together. -/
theorem part_ofLanes (parts : List (BitVec k)) {i : Nat} (inside : (i + 1) * k ≤ w)
    (bound : i < parts.length) : part k (ofLanes parts : BitVec w) i = parts[i] := by
  induction parts generalizing i with
  | nil => cases bound
  | cons lane rest inductionHypothesis =>
    refine BitVec.eq_of_getLsbD_eq fun bit small => ?_
    rw [Nat.add_mul, Nat.one_mul] at inside
    rw [getLsbD_part, decide_eq_true small, Bool.true_and, ofLanes, BitVec.getLsbD_or,
      BitVec.getLsbD_shiftLeft, BitVec.getLsbD_setWidth]
    have within : i * k + bit < w := by omega
    cases i with
    | zero => simp [small, show bit < w by omega]
    | succ i =>
      rw [Nat.add_mul, Nat.one_mul] at inside within ⊢
      have above : i * k + k + bit - k = i * k + bit := by omega
      have next := inductionHypothesis (i := i) (by rw [Nat.add_mul]; omega)
        (Nat.lt_of_succ_lt_succ bound)
      rw [List.getElem_cons_succ, ← next, getLsbD_part, decide_eq_true small, Bool.true_and,
        decide_eq_true within, above, BitVec.getLsbD_of_ge lane _ (by omega)]
      simp only [Bool.true_and, Bool.and_false, Bool.or_false]
      rw [decide_eq_false (by omega), Bool.not_false, Bool.true_and]

/-- Parts that fit into a word are its lanes once put together. -/
theorem lanes_ofLanes {parts : List (BitVec k)} (length_eq : parts.length = n)
    (fits : n * k ≤ w) : lanes k n (ofLanes parts : BitVec w) = parts := by
  refine List.ext_getElem (by rw [length_lanes, length_eq]) fun i inside bound => ?_
  rw [getElem_lanes]
  exact part_ofLanes parts ((Nat.mul_le_mul_right k (length_eq ▸ bound)).trans fits) bound

/-- A word is known by lanes that cover it. -/
theorem eq_of_lanes {first second : BitVec w} (cover : w ≤ n * k)
    (same : lanes k n first = lanes k n second) : first = second := by
  refine BitVec.eq_of_getLsbD_eq fun bit small => ?_
  have positive : 0 < k := Nat.pos_of_ne_zero fun zero => by
    rw [zero, Nat.mul_zero] at cover
    omega
  have inside : bit / k < n := Nat.div_lt_of_lt_mul (by rw [Nat.mul_comm]; omega)
  have lane : part k first (bit / k) = part k second (bit / k) :=
    List.map_inj_left.mp same _ (List.mem_range.mpr inside)
  have whole : bit / k * k + bit % k = bit := Nat.div_add_mod' bit k
  have bits := congrArg (fun part => part.getLsbD (bit % k)) lane
  simpa only [getLsbD_part, Nat.mod_lt bit positive, decide_true, Bool.true_and, whole] using bits

/-- The lanes of a word they fill put the word together. -/
theorem ofLanes_lanes (word : BitVec w) (fills : n * k = w) : ofLanes (lanes k n word) = word :=
  eq_of_lanes fills.ge (lanes_ofLanes (length_lanes word) fills.le)

/-! ### Words put together by shifts -/

theorem part_or (first second : BitVec w) (i : Nat) :
    part k (first ||| second) i = part k first i ||| part k second i := by
  ext bit small
  simp only [part, BitVec.getElem_extractLsb', BitVec.getElem_or, BitVec.getLsbD_or]

/-- A lane that is shifted into its place is met there, and nowhere else. -/
theorem part_shiftLeft (lane : BitVec k) (i : Nat) {j : Nat} (inside : (j + 1) * k ≤ w) :
    part k (lane.setWidth w <<< (k * i)) j = if j = i then lane else 0#k := by
  refine BitVec.eq_of_getLsbD_eq fun bit small => ?_
  rw [Nat.add_mul, Nat.one_mul] at inside
  have within : j * k + bit < w := by omega
  rw [getLsbD_part, decide_eq_true small, Bool.true_and, BitVec.getLsbD_shiftLeft,
    decide_eq_true within, Bool.true_and, BitVec.getLsbD_setWidth, Nat.mul_comm k i]
  split_ifs with same
  · subst same
    simp [show bit < w by omega]
  · rcases Nat.lt_or_gt_of_ne same with below | above
    · have apart : (j + 1) * k ≤ i * k := Nat.mul_le_mul_right k below
      rw [Nat.add_mul, Nat.one_mul] at apart
      simp [show j * k + bit < i * k by omega]
    · have apart : (i + 1) * k ≤ j * k := Nat.mul_le_mul_right k above
      rw [Nat.add_mul, Nat.one_mul] at apart
      rw [BitVec.getLsbD_of_ge lane _ (by omega)]
      simp

/-! ### Lanes of lanes -/

/-- The parts of a slice that starts at a part are parts of the word. -/
theorem part_slice (word : BitVec w) (i : Nat) {j : Nat} (inside : j < m) :
    part k (word.extractLsb' (i * k) (m * k)) j = part k word (i + j) := by
  refine BitVec.eq_of_getLsbD_eq fun bit small => ?_
  have below : (j + 1) * k ≤ m * k := Nat.mul_le_mul_right k inside
  rw [Nat.add_mul, Nat.one_mul] at below
  rw [getLsbD_part, getLsbD_part, BitVec.getLsbD_extractLsb',
    decide_eq_true (show j * k + bit < m * k by omega), Bool.true_and, Nat.add_mul, Nat.add_assoc]

theorem part_part (word : BitVec w) (i : Nat) {j : Nat} (inside : j < m) :
    part k (part (m * k) word i) j = part k word (i * m + j) := by
  have start : part (m * k) word i = word.extractLsb' (i * m * k) (m * k) := by
    rw [part, Nat.mul_assoc]
  rw [start]
  exact part_slice word (i * m) inside

/-- Taking the lanes of the lanes is taking smaller lanes. -/
theorem flatMap_lanes (word : BitVec w) :
    (lanes (m * k) n word).flatMap (lanes k m) = lanes k (n * m) word := by
  induction n with
  | zero => rw [Nat.zero_mul]; rfl
  | succ n inductionHypothesis =>
    have next : (List.range m).map (part k (part (m * k) word n)) =
        (List.range m).map fun j => part k word (n * m + j) :=
      List.map_congr_left fun j member => part_part word n (List.mem_range.mp member)
    rw [lanes, List.range_succ, List.map_append, List.flatMap_append, ← lanes, inductionHypothesis,
      List.map_singleton, List.flatMap_singleton, lanes, lanes, next, lanes, Nat.add_mul,
      Nat.one_mul, List.range_add, List.map_append, List.map_map]
    rfl

/-- The first lanes are those of the slice they make up. -/
theorem take_lanes (word : BitVec w) (fewer : m ≤ n) :
    (lanes k n word).take m = lanes k m (word.extractLsb' 0 (m * k)) := by
  have slice : ∀ i ∈ List.range m, part k word i = part k (word.extractLsb' 0 (m * k)) i := by
    intro i member
    have found := part_slice word 0 (k := k) (List.mem_range.mp member)
    rwa [Nat.zero_mul, Nat.zero_add, eq_comm] at found
  rw [lanes, lanes, ← List.map_take, List.take_range, Nat.min_eq_left fewer]
  exact List.map_congr_left slice

/-- The lanes of two words put side by side, if the lower one is filled by its lanes. -/
theorem lanes_append {p q : Nat} (high : BitVec p) (low : BitVec q) (filled : q = m * k) :
    lanes k (m + n) (high ++ low) = lanes k m low ++ lanes k n high := by
  have below : ∀ i ∈ List.range m, part k (high ++ low) i = part k low i := by
    intro i member
    have inside : (i + 1) * k ≤ m * k := Nat.mul_le_mul_right k (List.mem_range.mp member)
    rw [Nat.add_mul, Nat.one_mul] at inside
    refine BitVec.eq_of_getLsbD_eq fun bit small => ?_
    rw [getLsbD_part, getLsbD_part, BitVec.getLsbD_append, if_pos (by omega)]
  have above : ∀ i ∈ List.range n, part k (high ++ low) (m + i) = part k high i := by
    intro i _
    refine BitVec.eq_of_getLsbD_eq fun bit small => ?_
    have place : (m + i) * k + bit - q = i * k + bit := by
      rw [filled, Nat.add_mul]
      omega
    rw [getLsbD_part, getLsbD_part, BitVec.getLsbD_append, place, if_neg]
    rw [filled, Nat.add_mul]
    omega
  rw [lanes, List.range_add, List.map_append, List.map_map, lanes, lanes]
  exact congrArg₂ (· ++ ·) (List.map_congr_left below) (List.map_congr_left above)

section Pieces

variable {Item : Type*} {piece : Nat → List Item} (length : ∀ i, (piece i).length = m)

include length

/-- Pieces of one length. -/
theorem length_flatMap_range (n : Nat) : ((List.range n).flatMap piece).length = n * m := by
  rw [List.length_flatMap, List.map_congr_left fun i _ => length i, List.map_const',
    List.length_range, List.sum_replicate_nat]

/-- Cutting every piece where the whole ends is cutting the whole. -/
theorem flatMap_take (n total : Nat) :
    ((List.range n).flatMap fun i => (piece i).take (total - i * m)) =
      ((List.range n).flatMap piece).take total := by
  induction n with
  | zero => exact List.take_nil.symm
  | succ n inductionHypothesis =>
    rw [List.range_succ, List.flatMap_append, List.flatMap_append, inductionHypothesis,
      List.flatMap_singleton, List.flatMap_singleton, List.take_append,
      length_flatMap_range length]

end Pieces

/-! ### The most significant lane first -/

/-- The parts of a word, the most significant one first. -/
def msbFirst (k n : Nat) (word : BitVec w) : List (BitVec k) := (lanes k n word).reverse

/-- The word with the given parts, the most significant one first. -/
def ofMsbFirst (parts : List (BitVec k)) : BitVec w := ofLanes parts.reverse

@[simp] theorem length_msbFirst (word : BitVec w) : (msbFirst k n word).length = n := by
  rw [msbFirst, List.length_reverse, length_lanes]

theorem msbFirst_ofMsbFirst {parts : List (BitVec k)} (length_eq : parts.length = n)
    (fits : n * k ≤ w) : msbFirst k n (ofMsbFirst parts : BitVec w) = parts := by
  rw [msbFirst, ofMsbFirst, lanes_ofLanes (by rw [List.length_reverse, length_eq]) fits,
    List.reverse_reverse]

theorem flatMap_msbFirst (word : BitVec w) :
    (msbFirst (m * k) n word).flatMap (msbFirst k m) = msbFirst k (n * m) word := by
  rw [msbFirst, msbFirst, ← flatMap_lanes, List.reverse_flatMap]
  rfl

end Clocked
