/-
This file models `query_response_with_timeout` of `fmc112.c`, and what the socket
may do in a loop that waits for bytes.

A loop calls `select`, and `read` when there is something to read. What comes of it
in one round is a `Wait`; the rounds of a loop are a list, and a `select` behind
its end times out. Only one descriptor is waited for, so a `select` that is
neither interrupted nor failed nor timed out is followed by a `read`. A buffer is
the list of its bytes.
-/

import K71GbE.Host.Command

namespace K71GbE.Host

/-- `BUFSIZ`. -/
def bufsiz : Nat := 8192

/-- One round of waiting. `failed` is a `select` that fails with another error than `EINTR`,
`readFailed` a `read` that returns -1. Other reads find the bytes that have come, none if the
socket is closed, and take what there is room for. -/
inductive Wait where
  | failed
  | interrupted
  | timedOut
  | readFailed
  | read (bytes : List (BitVec 8))
deriving DecidableEq, Repr

/-- A buffer after `read` or `memcpy` has put some bytes into it. -/
def overwrite (buf : List (BitVec 8)) (first : Nat) (bytes : List (BitVec 8)) : List (BitVec 8) :=
  buf.take first ++ bytes ++ buf.drop (first + bytes.length)

/-- What becomes of a query: the result of `send`, if it does not fail, and the rounds that wait for
the response. -/
structure Query where
  nw : Option Nat
  waits : List Wait
deriving DecidableEq, Repr

section Queries

variable (nbytesRetExp : Nat)

/-- The loop that waits for the response, with `ret` bytes received. -/
def receive : List Wait → Nat → List (BitVec 8) → Int × List (BitVec 8)
  | [], ret, respStr => (ret, respStr)
  | wait :: rest, ret, respStr =>
    match wait with
    | .failed => (-1, respStr)
    | .interrupted => receive rest ret respStr
    | .timedOut | .readFailed => (ret, respStr)
    | .read bytes =>
      let nr := (bytes.take (bufsiz - ret)).length
      if 0 < nr then
        if nbytesRetExp ≤ ret + nr ∧ 0 < nbytesRetExp then
          (ret + nr, overwrite respStr ret (bytes.take (bufsiz - ret)))
        else receive rest (ret + nr) (overwrite respStr ret (bytes.take (bufsiz - ret)))
      else (ret, respStr)

/-- `query_response_with_timeout` with the response in the buffer of the query: its result and the
buffer after it. -/
def queryResponse (query : Query) (buf : List (BitVec 8)) : Int × List (BitVec 8) :=
  match query.nw with
  | none => (-1, buf)
  | some nw => if nbytesRetExp = 0 then (nw, buf) else receive nbytesRetExp query.waits 0 buf

/-! ### What is received -/

/-- The bytes that come before the loop stops waiting. -/
def delivered : List Wait → Nat → List (BitVec 8)
  | [], _ => []
  | wait :: rest, ret =>
    match wait with
    | .interrupted => delivered rest ret
    | .read bytes =>
      let got := bytes.take (bufsiz - ret)
      if got = [] ∨ nbytesRetExp ≤ ret + got.length then got
      else got ++ delivered rest (ret + got.length)
    | _ => []

/-- A `select` fails before so many bytes have come. -/
def SelectFails : List Wait → Nat → Prop
  | [], _ => False
  | wait :: rest, ret =>
    match wait with
    | .failed => True
    | .interrupted => SelectFails rest ret
    | .read bytes =>
      let got := bytes.take (bufsiz - ret)
      ¬(got = [] ∨ nbytesRetExp ≤ ret + got.length) ∧ SelectFails rest (ret + got.length)
    | _ => False

instance decidableSelectFails : ∀ waits ret, Decidable (SelectFails nbytesRetExp waits ret)
  | [], _ => inferInstanceAs (Decidable False)
  | .failed :: _, _ => inferInstanceAs (Decidable True)
  | .interrupted :: rest, ret => decidableSelectFails rest ret
  | .read bytes :: rest, ret =>
    have := decidableSelectFails rest (ret + (bytes.take (bufsiz - ret)).length)
    inferInstanceAs (Decidable (¬(_ ∨ _) ∧ SelectFails nbytesRetExp rest _))
  | .timedOut :: _, _ | .readFailed :: _, _ => inferInstanceAs (Decidable False)

/-- The query fails: it is not sent, or `select` fails before the response has come. -/
def Query.Fails (query : Query) : Prop :=
  query.nw = none ∨ SelectFails nbytesRetExp query.waits 0

instance (query : Query) : Decidable (query.Fails nbytesRetExp) :=
  inferInstanceAs (Decidable (_ ∨ _))

/-- The bytes of the response that are received. -/
def Query.response (query : Query) : List (BitVec 8) :=
  match query.nw with
  | none => []
  | some _ => delivered nbytesRetExp query.waits 0

end Queries

section Buffers

variable (buf : List (BitVec 8)) {first : Nat} (bytes more : List (BitVec 8))

theorem overwrite_nil : overwrite buf first [] = buf := by
  rw [overwrite, List.append_nil, List.length_nil, Nat.add_zero, List.take_append_drop]

theorem length_overwrite (inside : first + bytes.length ≤ buf.length) :
    (overwrite buf first bytes).length = buf.length := by
  rw [overwrite, List.length_append, List.length_append, List.length_take, List.length_drop]
  omega

/-- The beginning of a buffer up to the end of what is put into it. -/
theorem take_overwrite (inside : first ≤ buf.length) :
    (overwrite buf first bytes).take (first + bytes.length) = buf.take first ++ bytes := by
  have length : (buf.take first ++ bytes).length = first + bytes.length := by
    rw [List.length_append, List.length_take, Nat.min_eq_left inside]
  rw [overwrite, ← length, List.take_left]

/-- The bytes of a buffer whose beginning is overwritten. -/
theorem getD_overwrite (i : Nat) :
    (overwrite buf 0 bytes).getD i 0 =
      if i < bytes.length then bytes.getD i 0 else buf.getD i 0 := by
  rw [overwrite, List.take_zero, List.nil_append, Nat.zero_add]
  simp only [List.getD_eq_getElem?_getD]
  split_ifs with inside
  · rw [List.getElem?_append_left inside]
  · have behind : bytes.length + (i - bytes.length) = i := by omega
    rw [List.getElem?_append_right (Nat.le_of_not_lt inside), List.getElem?_drop, behind]

theorem overwrite_overwrite (inside : first ≤ buf.length) :
    overwrite (overwrite buf first bytes) (first + bytes.length) more =
      overwrite buf first (bytes ++ more) := by
  have length : (buf.take first ++ bytes).length = first + bytes.length := by
    rw [List.length_append, List.length_take, Nat.min_eq_left inside]
  have rest : (overwrite buf first bytes).drop (first + bytes.length + more.length) =
      buf.drop (first + bytes.length + more.length) := by
    rw [overwrite, List.drop_append, length, List.drop_of_length_le (by omega), List.nil_append,
      List.drop_drop]
    congr 1
    omega
  rw [overwrite, take_overwrite buf bytes inside, rest, overwrite, List.length_append,
    ← Nat.add_assoc, List.append_assoc (buf.take first)]

end Buffers

/-- The loop puts the bytes that come into the buffer and counts them, unless `select` fails. -/
theorem receive_eq {nbytesRetExp : Nat} (positive : 0 < nbytesRetExp) (waits : List Wait)
    {ret : Nat} {respStr : List (BitVec 8)} (room : ret ≤ respStr.length) :
    receive nbytesRetExp waits ret respStr =
      (if SelectFails nbytesRetExp waits ret then (-1 : Int)
        else (ret + (delivered nbytesRetExp waits ret).length : Nat),
        overwrite respStr ret (delivered nbytesRetExp waits ret)) := by
  induction waits generalizing ret respStr with
  | nil =>
    rw [receive, delivered, overwrite_nil, List.length_nil, Nat.add_zero]
    rfl
  | cons wait rest inductionHypothesis =>
    cases wait with
    | failed | timedOut | readFailed => simp [receive, delivered, SelectFails, overwrite_nil]
    | interrupted => exact inductionHypothesis room
    | read bytes =>
      obtain ⟨got, taken⟩ : ∃ got, bytes.take (bufsiz - ret) = got := ⟨_, rfl⟩
      have fails : SelectFails nbytesRetExp (.read bytes :: rest) ret ↔
          ¬(got = [] ∨ nbytesRetExp ≤ ret + got.length) ∧
            SelectFails nbytesRetExp rest (ret + got.length) := by
        rw [← taken]
        exact Iff.rfl
      simp only [receive, delivered, taken]
      have wider : ret + got.length ≤ (overwrite respStr ret got).length := by
        simp only [overwrite, List.length_append, List.length_take, Nat.min_eq_left room]
        omega
      by_cases empty : got = []
      · rw [if_pos (Or.inl empty), if_neg fun fails' => (fails.mp fails').1 (Or.inl empty), empty,
          overwrite_nil, List.length_nil, if_neg (Nat.lt_irrefl 0), Nat.add_zero]
      rw [if_pos (List.length_pos_of_ne_nil empty)]
      by_cases enough : nbytesRetExp ≤ ret + got.length
      · rw [if_pos ⟨enough, positive⟩, if_pos (Or.inr enough),
          if_neg fun fails' => (fails.mp fails').1 (Or.inr enough), Nat.cast_add]
      · have waiting : ¬(got = [] ∨ nbytesRetExp ≤ ret + got.length) := not_or.mpr ⟨empty, enough⟩
        rw [if_neg fun done => enough done.1, if_neg waiting, inductionHypothesis wider,
          overwrite_overwrite _ _ _ room, List.length_append, Nat.add_assoc,
          if_congr (fails.trans (and_iff_right waiting)) rfl rfl]

/-- When `select` fails fewer bytes have come than are waited for. -/
theorem length_delivered_of_selectFails {nbytesRetExp : Nat} {waits : List Wait} {ret : Nat}
    (before : ret < nbytesRetExp) (fails : SelectFails nbytesRetExp waits ret) :
    ret + (delivered nbytesRetExp waits ret).length < nbytesRetExp := by
  induction waits generalizing ret with
  | nil => exact fails.elim
  | cons wait rest inductionHypothesis =>
    cases wait with
    | failed => exact before
    | interrupted => exact inductionHypothesis before fails
    | timedOut | readFailed => exact fails.elim
    | read bytes =>
      obtain ⟨waiting, later⟩ := fails
      have below := inductionHypothesis (Nat.lt_of_not_le fun enough => waiting (.inr enough)) later
      rw [delivered, if_neg waiting, List.length_append]
      omega

theorem Query.length_response_of_fails {nbytesRetExp : Nat} (positive : 0 < nbytesRetExp)
    {query : Query} (fails : query.Fails nbytesRetExp) :
    (query.response nbytesRetExp).length < nbytesRetExp := by
  obtain ⟨nw, waits⟩ := query
  cases nw with
  | none => exact positive
  | some nw =>
    have later := fails.resolve_left (Option.some_ne_none nw)
    simpa [Query.response] using length_delivered_of_selectFails positive later

theorem length_delivered_le (nbytesRetExp : Nat) (waits : List Wait) {ret : Nat}
    (room : ret ≤ bufsiz) : ret + (delivered nbytesRetExp waits ret).length ≤ bufsiz := by
  induction waits generalizing ret with
  | nil => exact room
  | cons wait rest inductionHypothesis =>
    cases wait with
    | failed | timedOut | readFailed => exact room
    | interrupted => exact inductionHypothesis room
    | read bytes =>
      rw [delivered]
      obtain ⟨got, taken⟩ : ∃ got, bytes.take (bufsiz - ret) = got := ⟨_, rfl⟩
      have inside : got.length ≤ bufsiz - ret := taken ▸ List.length_take_le _ _
      have later := @inductionHypothesis (ret + got.length) (by omega)
      simp only [taken]
      split_ifs
      · omega
      · rw [List.length_append]
        omega

theorem Query.length_response_le (query : Query) (nbytesRetExp : Nat) :
    (query.response nbytesRetExp).length ≤ bufsiz := by
  obtain ⟨nw, waits⟩ := query
  cases nw with
  | none => exact Nat.zero_le _
  | some nw => simpa [Query.response] using length_delivered_le nbytesRetExp waits (Nat.zero_le _)

/-- A query that does not fail leaves the response at the beginning of the buffer and returns its
length; one that fails returns -1. -/
theorem queryResponse_eq {nbytesRetExp : Nat} (positive : 0 < nbytesRetExp) (query : Query)
    (buf : List (BitVec 8)) :
    queryResponse nbytesRetExp query buf =
      (if query.Fails nbytesRetExp then (-1 : Int) else (query.response nbytesRetExp).length,
        overwrite buf 0 (query.response nbytesRetExp)) := by
  obtain ⟨nw, waits⟩ := query
  cases nw with
  | none => simp [queryResponse, Query.Fails, Query.response, overwrite_nil]
  | some nw =>
    have sent : Query.Fails nbytesRetExp ⟨some nw, waits⟩ ↔ SelectFails nbytesRetExp waits 0 :=
      or_iff_right (Option.some_ne_none nw)
    simp only [queryResponse, Query.response, if_neg positive.ne',
      receive_eq positive _ (Nat.zero_le _), Nat.zero_add, if_congr sent rfl rfl]

end K71GbE.Host
