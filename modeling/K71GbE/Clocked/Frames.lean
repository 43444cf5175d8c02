/-
This file cuts a stream into frames at the elements that are marked as the last
ones, as a receiver of the stream does.
-/

import Mathlib.Data.List.Basic
import Mathlib.Data.Nat.Count

namespace Clocked

variable {α : Type*} {marked : α → Bool}

/-- The frames of a stream, each up to its marked element. What follows the last mark is not a frame
yet. -/
def framesOf (marked : α → Bool) : List α → List (List α)
  | [] => []
  | item :: rest =>
    if marked item then [item] :: framesOf marked rest
    else
      match framesOf marked rest with
      | [] => []
      | frame :: later => (item :: frame) :: later

/-- The last element is marked, and no other. -/
def IsFrame (marked : α → Bool) (frame : List α) : Prop :=
  ∃ body last, frame = body ++ [last] ∧ marked last = true ∧ ∀ item ∈ body, marked item = false

theorem isFrame_of_getElem {frame : List α} (nonempty : frame ≠ [])
    (ends : ∀ k (inside : k < frame.length), marked frame[k] = decide (k + 1 = frame.length)) :
    IsFrame marked frame := by
  obtain ⟨body, last, rfl⟩ := List.eq_nil_or_concat frame |>.resolve_left nonempty
  rw [List.concat_eq_append] at ends ⊢
  have size : (body ++ [last]).length = body.length + 1 := by
    rw [List.length_append, List.length_singleton]
  refine ⟨body, last, rfl, ?_, fun item member => ?_⟩
  · have mark := ends body.length (by omega)
    rwa [List.getElem_concat_length rfl, decide_eq_true size.symm] at mark
  · obtain ⟨k, inside, rfl⟩ := List.mem_iff_getElem.mp member
    have mark := ends k (by omega)
    rwa [List.getElem_append_left inside, decide_eq_false (by omega)] at mark

/-- A frame at the beginning of a stream is cut off. -/
theorem framesOf_append {frame : List α} (isFrame : IsFrame marked frame) (rest : List α) :
    framesOf marked (frame ++ rest) = frame :: framesOf marked rest := by
  obtain ⟨body, last, rfl, mark, others⟩ := isFrame
  induction body with
  | nil => exact if_pos mark
  | cons item body inductionHypothesis =>
    obtain ⟨first, later⟩ := List.forall_mem_cons.mp others
    have inner := inductionHypothesis later
    rw [List.cons_append, List.cons_append, framesOf, inner, if_neg (by rw [first]; decide)]

/-- A stream of whole frames is cut into these. -/
theorem framesOf_flatten {frames : List (List α)} (whole : ∀ frame ∈ frames, IsFrame marked frame) :
    framesOf marked frames.flatten = frames := by
  induction frames with
  | nil => rfl
  | cons frame rest inductionHypothesis =>
    obtain ⟨first, later⟩ := List.forall_mem_cons.mp whole
    rw [List.flatten_cons, framesOf_append first, inductionHypothesis later]

/-! ### Marks in an endless stream -/

section Marks

variable {mark : Nat → Prop} [DecidablePred mark]

/-- If no two marks are neighbours, at most every second element is marked. -/
theorem count_spaced (spaced : ∀ i, mark i → ¬mark (i + 1)) {p q : Nat} (le : p ≤ q) :
    2 * Nat.count mark q ≤ 2 * Nat.count mark p + (q - p) + 1 := by
  have counted : 2 * Nat.count mark q ≤
      2 * Nat.count mark p + (q - p) + (if p < q ∧ mark (q - 1) then 1 else 0) := by
    induction q, le using Nat.le_induction with
    | base => omega
    | succ q le inductionHypothesis =>
      rw [Nat.count_succ, Nat.add_sub_cancel]
      by_cases marked : mark q
      · have before : ¬(p < q ∧ mark (q - 1)) := fun ⟨less, neighbour⟩ =>
          spaced (q - 1) neighbour (by rwa [Nat.sub_add_cancel (by omega)])
        rw [if_neg before] at inductionHypothesis
        rw [if_pos marked, if_pos ⟨by omega, marked⟩]
        omega
      · rw [if_neg marked, if_neg fun both => marked both.2]
        split at inductionHypothesis <;> omega
  split at counted <;> omega

/-- If every stretch of some length holds a mark, a long stretch holds many. -/
theorem count_gap {longest : Nat} (short : ∀ p, ∃ i, p ≤ i ∧ i < p + longest ∧ mark i) {p q : Nat}
    (le : p ≤ q) : q - p < (Nat.count mark q - Nat.count mark p + 1) * longest := by
  induction size : q - p using Nat.strong_induction_on generalizing p with
  | h size inductionHypothesis =>
    obtain ⟨i, after, before, marked⟩ := short p
    rcases Nat.lt_or_ge i q with inside | outside
    · have rest := inductionHypothesis (q - (i + 1)) (by omega) (by omega : i + 1 ≤ q) rfl
      have first : Nat.count mark p + 1 ≤ Nat.count mark (i + 1) := by
        rw [Nat.count_succ, if_pos marked]
        exact Nat.succ_le_succ (Nat.count_monotone mark after)
      have second : Nat.count mark (i + 1) ≤ Nat.count mark q := Nat.count_monotone mark inside
      have more : (Nat.count mark q - Nat.count mark (i + 1) + 1) * longest + longest ≤
          (Nat.count mark q - Nat.count mark p + 1) * longest := by
        rw [← Nat.succ_mul]
        exact Nat.mul_le_mul_right longest (by omega)
      omega
    · have one : longest ≤ (Nat.count mark q - Nat.count mark p + 1) * longest :=
        Nat.le_mul_of_pos_left longest (Nat.succ_pos _)
      omega

end Marks

/-! ### Streams that are given by their beginnings -/

theorem getElem?_beginning {list longer : List α} (early : list <+: longer) {p : Nat} {item : α}
    (found : list[p]? = some item) : longer[p]? = some item := by
  obtain ⟨rest, rfl⟩ := early
  have inside := (List.getElem?_eq_some_iff.mp found).1
  rwa [List.getElem?_append_left inside]

/-- Lists that grow are the beginnings of a stream, which is padded where they do not reach. -/
theorem exists_stream (pad : α) {beginnings : Nat → List α}
    (grows : ∀ {n m : Nat}, n ≤ m → beginnings n <+: beginnings m) :
    ∃ stream : Nat → α,
      (∀ n p item, (beginnings n)[p]? = some item → stream p = item) ∧
        ∀ p, (∃ n, (beginnings n)[p]? = some (stream p)) ∨ stream p = pad := by
  have pointwise (p : Nat) : ∃ here : α,
      (∀ n item, (beginnings n)[p]? = some item → here = item) ∧
        ((∃ n, (beginnings n)[p]? = some here) ∨ here = pad) := by
    by_cases reached : ∃ n item, (beginnings n)[p]? = some item
    · obtain ⟨first, here, found⟩ := reached
      refine ⟨here, fun n item other => ?_, Or.inl ⟨first, found⟩⟩
      rcases Nat.le_total first n with le | le
      · rw [getElem?_beginning (grows le) found, Option.some_inj] at other
        exact other
      · have later := getElem?_beginning (grows le) other
        rw [found, Option.some_inj] at later
        exact later
    · exact ⟨pad, fun n item found => absurd ⟨n, item, found⟩ reached, Or.inr rfl⟩
  choose stream follows padded using pointwise
  exact ⟨stream, fun n p => follows p n, padded⟩

/-- The first elements of a stream are a beginning of every list that it follows. -/
theorem map_range_prefix {stream : Nat → α} {list : List α}
    (follows : ∀ p item, list[p]? = some item → stream p = item) {count : Nat}
    (le : count ≤ list.length) : (List.range count).map stream <+: list := by
  refine List.prefix_iff_getElem?.mpr fun p inside => ?_
  rw [List.length_map, List.length_range] at inside
  have here := List.getElem?_eq_getElem (inside.trans_le le)
  rw [here, List.getElem_map, List.getElem_range, follows p _ here]

theorem prefix_map_range {stream : Nat → α} {list : List α}
    (follows : ∀ p item, list[p]? = some item → stream p = item) {count : Nat}
    (le : list.length ≤ count) : list <+: (List.range count).map stream := by
  refine List.prefix_iff_getElem?.mpr fun p inside => ?_
  rw [List.getElem?_map, List.getElem?_range (inside.trans_le le), Option.map_some,
    follows p _ (List.getElem?_eq_getElem inside)]

/-! ### Frames one after another -/

section Joined

variable {frames : Nat → List α}

/-- The first frames of a sequence, one after another. -/
def joined (frames : Nat → List α) (n : Nat) : List α := (List.range n).flatMap frames

theorem joined_succ (n : Nat) : joined frames (n + 1) = joined frames n ++ frames n := by
  rw [joined, List.range_succ, List.flatMap_append, List.flatMap_singleton, joined]

theorem joined_mono {n m : Nat} (le : n ≤ m) : joined frames n <+: joined frames m := by
  induction m, le using Nat.le_induction with
  | base => exact List.prefix_refl _
  | succ m le inductionHypothesis =>
    rw [joined_succ]
    exact inductionHypothesis.trans (List.prefix_append _ _)

/-- Every element of a frame has its place. -/
theorem getElem?_joined {n k : Nat} (inside : k < (frames n).length) :
    (joined frames (n + 1))[(joined frames n).length + k]? = some (frames n)[k] := by
  rw [joined_succ, List.getElem?_append_right (Nat.le_add_right _ _), Nat.add_sub_cancel_left,
    List.getElem?_eq_getElem inside]

/-- And every place is one of a frame. -/
theorem exists_place (nonempty : ∀ n, 0 < (frames n).length) (p : Nat) :
    ∃ n k, k < (frames n).length ∧ p = (joined frames n).length + k := by
  induction p with
  | zero => exact ⟨0, 0, nonempty 0, rfl⟩
  | succ p inductionHypothesis =>
    obtain ⟨n, k, inside, rfl⟩ := inductionHypothesis
    rcases Nat.lt_or_eq_of_le (Nat.succ_le_of_lt inside) with more | last
    · exact ⟨n, k + 1, more, rfl⟩
    · refine ⟨n + 1, 0, nonempty (n + 1), ?_⟩
      rw [joined_succ, List.length_append, ← last]
      omega

end Joined

end Clocked
