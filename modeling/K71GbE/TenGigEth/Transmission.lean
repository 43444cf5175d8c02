/-
This file is about the packet generator in front of the transmit FIFO.

The generator works on the clock that the FIFO is written with, and the FIFO holds
it back when it is full. Every start that the generator takes becomes one frame on
the MAC's side. `TX_AXIS_TDATA` of the generator is left open at this commit, so the
data of the beats are whatever the FIFO finds at its input.
-/

import K71GbE.TenGigEth.TxFifo

namespace K71GbE.TenGigEth

open Clocked

variable {w : Nat}

/-! ### The form of a frame -/

/-- The lanes of a word with some bytes left. -/
theorem txAxisTkeep_lanes (bytesLeftReg : BitVec 16) (positive : 0 < bytesLeftReg.toNat) :
    (∃ lanes, txAxisTkeep bytesLeftReg = tkeepOf lanes) ∧
      (8 ≤ bytesLeftReg.toNat → txAxisTkeep bytesLeftReg = 0b11111111) := by
  unfold txAxisTkeep
  split
  case h_9 => exact ⟨⟨0b111, rfl⟩, fun _ => rfl⟩
  case h_1 zero => omega
  case h_2 one => exact ⟨⟨0b000, rfl⟩, fun many => by omega⟩
  case h_3 two => exact ⟨⟨0b001, rfl⟩, fun many => by omega⟩
  case h_4 three => exact ⟨⟨0b010, rfl⟩, fun many => by omega⟩
  case h_5 four => exact ⟨⟨0b011, rfl⟩, fun many => by omega⟩
  case h_6 five => exact ⟨⟨0b100, rfl⟩, fun many => by omega⟩
  case h_7 six => exact ⟨⟨0b101, rfl⟩, fun many => by omega⟩
  case h_8 seven => exact ⟨⟨0b110, rfl⟩, fun many => by omega⟩

theorem marksAt_lanes {bytes : BitVec 16} {k : Nat} (inside : k < beatCount bytes) :
    (∃ lanes, (marksAt bytes k).1 = tkeepOf lanes) ∧
      ((marksAt bytes k).2 = false → (marksAt bytes k).1 = 0b11111111) := by
  have bound := bytes.isLt
  have left : (BitVec.ofNat 16 (bytes.toNat - k * 8)).toNat = bytes.toNat - k * 8 := by
    rw [BitVec.toNat_ofNat, Nat.mod_eq_of_lt (by omega)]
  unfold beatCount at inside
  obtain ⟨lanes, full⟩ := txAxisTkeep_lanes (BitVec.ofNat 16 (bytes.toNat - k * 8)) (by omega)
  refine ⟨lanes, fun inner => full ?_⟩
  have more : k + 1 ≠ beatCount bytes := of_decide_eq_false inner
  unfold beatCount at more
  omega

/-- Beats in the form of such frames are a stream in frames. -/
theorem inFrames_of_marks {longest : Nat} (starts : Nat → BitVec 16) {beats : Nat → TxBeat}
    (long : ∀ n, 14 ≤ (starts n).toNat) (short : ∀ n, beatCount (starts n) ≤ longest)
    (follows : ∀ n k, k < beatCount (starts n) →
      (beats ((joined (frameMarks ∘ starts) n).length + k)).marks = marksAt (starts n) k) :
    InFrames longest beats := by
  have two (n : Nat) : 2 ≤ beatCount (starts n) := by
    have enough := long n
    unfold beatCount
    omega
  have length (n : Nat) : ((frameMarks ∘ starts) n).length = beatCount (starts n) :=
    length_frameMarks (starts n)
  have place (p : Nat) : ∃ n k, k < beatCount (starts n) ∧
      p = (joined (frameMarks ∘ starts) n).length + k := by
    obtain ⟨n, k, inside, here⟩ := exists_place (fun n => by
      rw [length n]
      exact Nat.zero_lt_of_lt (two n)) p
    exact ⟨n, k, length n ▸ inside, here⟩
  have last (n : Nat) {k : Nat} (inside : k < beatCount (starts n)) :
      (beats ((joined (frameMarks ∘ starts) n).length + k)).tlast =
        decide (k + 1 = beatCount (starts n)) := congrArg Prod.snd (follows n k inside)
  have ended (n : Nat) : (joined (frameMarks ∘ starts) (n + 1)).length =
      (joined (frameMarks ∘ starts) n).length + beatCount (starts n) := by
    rw [joined_succ, List.length_append, length]
  have begins (n : Nat) : (beats (joined (frameMarks ∘ starts) n).length).tlast = false := by
    rw [← Nat.add_zero (joined (frameMarks ∘ starts) n).length, last n (Nat.zero_lt_of_lt (two n))]
    exact decide_eq_false (by have := two n; omega)
  refine { first := begins 0, spaced := fun p marked => ?_, full := fun p inner => ?_,
           lowest := fun p => ?_, short := fun p => ?_ }
  · obtain ⟨n, k, inside, rfl⟩ := place p
    rw [last n inside] at marked
    have next : (joined (frameMarks ∘ starts) n).length + k + 1 =
        (joined (frameMarks ∘ starts) (n + 1)).length := by
      rw [ended n, ← of_decide_eq_true marked, Nat.add_assoc]
    rw [next]
    exact begins (n + 1)
  · obtain ⟨n, k, inside, rfl⟩ := place p
    have marks := follows n k inside
    have tkeep : (beats ((joined (frameMarks ∘ starts) n).length + k)).tkeep =
        (marksAt (starts n) k).1 := congrArg Prod.fst marks
    rw [tkeep]
    exact (marksAt_lanes inside).2 ((congrArg Prod.snd marks).symm.trans inner)
  · obtain ⟨n, k, inside, rfl⟩ := place p
    obtain ⟨lanes, tkeep⟩ := (marksAt_lanes inside).1
    exact ⟨lanes, (congrArg Prod.fst (follows n k inside)).trans tkeep⟩
  · obtain ⟨n, k, inside, rfl⟩ := place p
    have most := short n
    have final := last n (show beatCount (starts n) - 1 < beatCount (starts n) by omega)
    refine ⟨(joined (frameMarks ∘ starts) n).length + (beatCount (starts n) - 1), by omega,
      by omega, ?_⟩
    rw [final]
    exact decide_eq_true (by omega)

/-! ### The generator on the write clock -/

/-- The transmit FIFO with the packet generator at its write interface. `TREADY` is
`not wr_fifo_full`; the FIFO takes `TKEEP`, `TVALID` and `TLAST` from the generator, and `TLAST` for
`TUSER`. -/
structure Transmitter (w : Nat) where
  store : TxFifoRun w
  gen : Nat → PacketGen
  txStart : Nat → Bool
  txBytes : Nat → BitVec 16
  ram : Nat → BitVec 11 → BitVec 64
  rests : (gen 0).pktState = .s0
  clocked : ∀ n, gen (n + 1) =
    match (store.tick n).axis with
    | none => gen n
    | some _ => (gen n).clock (ram n) ⟨txStart n, txBytes n, !(store.fifo n).wr.wrFifoFull⟩
  wired : ∀ n, ∀ axis ∈ (store.tick n).axis,
    let out := (gen n).falling ⟨txStart n, txBytes n, !(store.fifo n).wr.wrFifoFull⟩
    axis.tkeep = txAxisTkeep out.bytesLeftReg ∧ axis.tvalid = out.txAxisTvalid ∧
      axis.tlast = out.txAxisTlast

namespace Transmitter

/-- The inputs of the generator. -/
def input (tx : Transmitter w) (n : Nat) : GenInput :=
  ⟨tx.txStart n, tx.txBytes n, !(tx.store.fifo n).wr.wrFifoFull⟩

/-- The starts that the generator takes: at rest, and of 14 bytes at least. -/
def starts (tx : Transmitter w) : Nat → List (BitVec 16)
  | 0 => []
  | n + 1 =>
    tx.starts n ++
      if (tx.store.tick n).axis.isSome && decide ((tx.gen n).pktState = .s0) && tx.txStart n &&
          !decide (tx.txBytes n < 14) then [tx.txBytes n]
      else []

/-- The beats transferred into the FIFO. -/
def sent (tx : Transmitter w) : Nat → List TxBeat
  | 0 => []
  | n + 1 =>
    tx.sent n ++
      match (tx.store.tick n).axis with
      | none => []
      | some axis => if (tx.store.fifo n).wr.accepts axis then [axis.beat] else []

/-- The beats transferred to the MAC. -/
def received (tx : Transmitter w) : Nat → List TxBeat
  | 0 => []
  | n + 1 =>
    tx.received n ++
      if (tx.store.fifo n).delivers (tx.store.tick n) then [(tx.store.fifo n).rd.beat] else []

/-- What the MAC gets: one frame for every start, in their order, as it was sent to the FIFO;
without a gap in a frame, and all of them if the MAC is ready again and again and the write clock
does not stop. The generator is then ready for the next start again and again. -/
structure Transmits (tx : Transmitter w) : Prop where
  inOrder : ∀ n, tx.received n <+: tx.sent n
  frames : ∀ n, (tx.sent n).map TxBeat.marks <+: (tx.starts n).flatMap frameMarks
  noGap : ∀ n, ∀ last ∈ (tx.received n).getLast?, last.tlast = false →
    (tx.store.fifo n).rd.rdAxisTvalid = true
  all : tx.store.Ready → tx.store.Offers → ∀ n, ∃ m,
    (tx.starts n).flatMap frameMarks <+: (tx.received m).map TxBeat.marks
  atRest : tx.store.Ready → tx.store.Offers → ∀ n, ∃ m, n ≤ m ∧ (tx.gen m).pktState = .s0

/-- Where the generator is in the frame of the last start. -/
def Phase (tx : Transmitter w) (n : Nat) : Prop :=
  (tx.gen n).pktState ≠ .s1 ∧ (tx.sent n).map TxBeat.marks = (tx.starts n).flatMap frameMarks ∨
    ∃ earlier bytes k, tx.starts n = earlier ++ [bytes] ∧ Framing bytes k (tx.gen n) ∧
      (tx.sent n).map TxBeat.marks = earlier.flatMap frameMarks ++ (frameMarks bytes).take k

variable {tx : Transmitter w}

/-- What is transferred into the FIFO is what the generator transfers, but for the data. -/
theorem marks_axis {n : Nat} {axis : WrAxis} (offered : (tx.store.tick n).axis = some axis) :
    (if (tx.store.fifo n).wr.accepts axis then [axis.beat] else []).map TxBeat.marks =
      ((tx.gen n).transferred (tx.input n)).map TxBeat.marks := by
  obtain ⟨tkeep, tvalid, tlast⟩ := tx.wired n axis offered
  have same : (tx.store.fifo n).wr.accepts axis =
      (((tx.gen n).falling (tx.input n)).txAxisTvalid && (tx.input n).txAxisTready) := by
    rw [WrSide.accepts, tvalid]
    rfl
  rw [PacketGen.transferred, same]
  split
  · rw [List.map_singleton, List.map_singleton, TxBeat.marks, WrAxis.beat, tkeep, tlast]
    rfl
  · rfl

/-- Without an edge of the write clock nothing happens. -/
theorem still {n : Nat} (noEdge : (tx.store.tick n).axis = none) :
    tx.gen (n + 1) = tx.gen n ∧ tx.starts (n + 1) = tx.starts n ∧ tx.sent (n + 1) = tx.sent n := by
  rw [tx.clocked, starts, sent, noEdge]
  exact ⟨rfl, List.append_nil _, List.append_nil _⟩

theorem gen_next {n : Nat} {axis : WrAxis} (offered : (tx.store.tick n).axis = some axis) :
    tx.gen (n + 1) = (tx.gen n).clock (tx.ram n) (tx.input n) := by
  rw [tx.clocked, offered]
  rfl

theorem sent_next {n : Nat} {axis : WrAxis} (offered : (tx.store.tick n).axis = some axis) :
    (tx.sent (n + 1)).map TxBeat.marks =
      (tx.sent n).map TxBeat.marks ++ ((tx.gen n).transferred (tx.input n)).map TxBeat.marks := by
  rw [← marks_axis offered, ← List.map_append, sent, offered]

/-- A start is taken at rest, if it is long enough. -/
theorem starts_next {n : Nat} {axis : WrAxis} (offered : (tx.store.tick n).axis = some axis) :
    tx.starts (n + 1) =
      tx.starts n ++
        if (tx.gen n).pktState = .s0 ∧ tx.txStart n = true ∧ ¬tx.txBytes n < 14 then [tx.txBytes n]
        else [] := by
  rw [starts, offered, Option.isSome_some, Bool.true_and]
  refine congrArg (_ ++ ·) (if_congr ?_ rfl rfl)
  rw [Bool.and_eq_true, Bool.and_eq_true, decide_eq_true_iff, Bool.not_eq_true',
    decide_eq_false_iff_not, and_assoc]

/-- Outside a frame the generator takes a start or comes to rest. -/
theorem clock_outside (ram : BitVec 11 → BitVec 64) {state : PacketGen} (input : GenInput)
    (other : state.pktState ≠ .s1) :
    (state.clock ram input).pktState =
      if state.pktState = .s0 ∧ input.txStart = true ∧ ¬input.txBytes < 14 then .s1 else .s0 := by
  unfold PacketGen.clock PacketGen.rising PacketGen.falling PacketGen.pktSm
  cases now : state.pktState with
  | s1 => exact absurd now other
  | s0 =>
    cases input.txStart with
    | false => simp
    | true =>
      by_cases short : input.txBytes < 14
      · simp only [short, if_true, not_true, and_false, if_false]
      · simp only [short, if_true, if_false, not_false_iff, and_true]
  | _ => simp

theorem phase_rest {n : Nat} {axis : WrAxis} (offered : (tx.store.tick n).axis = some axis)
    (other : (tx.gen n).pktState ≠ .s1)
    (whole : (tx.sent n).map TxBeat.marks = (tx.starts n).flatMap frameMarks) :
    tx.Phase (n + 1) := by
  have same : (tx.sent (n + 1)).map TxBeat.marks = (tx.starts n).flatMap frameMarks := by
    rw [sent_next offered, transferred_of_other _ other, List.map_nil, List.append_nil, whole]
  have gen := gen_next offered
  have taken := starts_next offered
  by_cases started : (tx.gen n).pktState = .s0 ∧ tx.txStart n = true ∧ ¬tx.txBytes n < 14
  · rw [if_pos started] at taken
    obtain ⟨rest, start, enough⟩ := started
    have long : 14 ≤ (tx.txBytes n).toNat := BitVec.le_def.mp (BitVec.not_lt.mp enough)
    refine Or.inr ⟨tx.starts n, tx.txBytes n, 0, taken, ?_, ?_⟩
    · rw [gen]
      exact framing_of_start (tx.ram n) (tx.input n) rest start long
    · rw [same, List.take_zero, List.append_nil]
  · rw [if_neg started, List.append_nil] at taken
    refine Or.inl ⟨?_, same.trans (by rw [taken])⟩
    have rest := (clock_outside (tx.ram n) (tx.input n) other).trans (if_neg started)
    rw [gen, rest]
    decide

/-- In a frame a word is transferred if the FIFO is not full. -/
theorem phase_framing {n : Nat} {axis : WrAxis} (offered : (tx.store.tick n).axis = some axis)
    {earlier : List (BitVec 16)} {bytes : BitVec 16} {k : Nat}
    (taken : tx.starts n = earlier ++ [bytes]) (framing : Framing bytes k (tx.gen n))
    (begun : (tx.sent n).map TxBeat.marks =
      earlier.flatMap frameMarks ++ (frameMarks bytes).take k) : tx.Phase (n + 1) := by
  have gen := gen_next offered
  have same : tx.starts (n + 1) = earlier ++ [bytes] := by
    rw [starts_next offered, framing.sending, if_neg fun started => PktState.noConfusion started.1,
      List.append_nil, taken]
  have shown := sent_next offered
  rw [framing.transferred, begun] at shown
  cases ready : (tx.input n).txAxisTready with
  | false =>
    rw [ready, if_neg Bool.false_ne_true, List.map_nil, List.append_nil] at shown
    refine Or.inr ⟨earlier, bytes, k, same, ?_, shown⟩
    rw [gen]
    exact framing.stalled _ ready
  | true =>
    rw [ready, if_pos rfl, List.map_singleton, List.append_assoc] at shown
    have word := take_frameMarks _ framing.within
    rcases Nat.lt_or_eq_of_le (Nat.succ_le_of_lt framing.within) with more | last
    · refine Or.inr ⟨earlier, bytes, k + 1, same, ?_, shown.trans (by rw [word]; rfl)⟩
      rw [gen]
      exact framing.next _ ready more
    · refine Or.inl ⟨?_, ?_⟩
      · rw [gen, framing.last _ ready last]
        decide
      · have all : (frameMarks bytes).take (k + 1) = frameMarks bytes :=
          List.take_of_length_le (by rw [length_frameMarks]; exact last.ge)
        rw [same, List.flatMap_append, List.flatMap_singleton, ← all, word]
        exact shown

theorem phase (n : Nat) : tx.Phase n := by
  induction n with
  | zero =>
    refine Or.inl ⟨?_, rfl⟩
    rw [tx.rests]
    decide
  | succ n inductionHypothesis =>
    cases offered : (tx.store.tick n).axis with
    | none =>
      obtain ⟨gen, starts, sent⟩ := still offered
      rw [Phase, gen, starts, sent]
      exact inductionHypothesis
    | some axis =>
      rcases inductionHypothesis with ⟨other, whole⟩ | ⟨earlier, bytes, k, taken, framing, begun⟩
      · exact phase_rest offered other whole
      · exact phase_framing offered taken framing begun

/-- What is sent are the beginnings of the frames of the starts. -/
theorem sent_prefix (tx : Transmitter w) (n : Nat) :
    (tx.sent n).map TxBeat.marks <+: (tx.starts n).flatMap frameMarks := by
  rcases tx.phase n with ⟨_, whole⟩ | ⟨earlier, bytes, k, taken, _, begun⟩
  · rw [whole]
  · rw [taken, begun, List.flatMap_append, List.flatMap_singleton]
    exact (List.prefix_append_right_inj _).mpr (List.take_prefix _ _)

/-! ### The stream that is sent -/

theorem starts_mono (tx : Transmitter w) {n m : Nat} (le : n ≤ m) :
    tx.starts n <+: tx.starts m := by
  induction m, le using Nat.le_induction with
  | base => exact List.prefix_refl _
  | succ m le inductionHypothesis => exact inductionHypothesis.trans (List.prefix_append _ _)

theorem sent_mono (tx : Transmitter w) {n m : Nat} (le : n ≤ m) : tx.sent n <+: tx.sent m := by
  induction m, le using Nat.le_induction with
  | base => exact List.prefix_refl _
  | succ m le inductionHypothesis => exact inductionHypothesis.trans (List.prefix_append _ _)

theorem mem_starts {n : Nat} {bytes : BitVec 16} (member : bytes ∈ tx.starts n) :
    14 ≤ bytes.toNat ∧ ∃ m, bytes = tx.txBytes m := by
  induction n with
  | zero => exact absurd member List.not_mem_nil
  | succ n inductionHypothesis =>
    cases offered : (tx.store.tick n).axis with
    | none =>
      rw [(still offered).2.1] at member
      exact inductionHypothesis member
    | some axis =>
      rw [starts_next offered] at member
      rcases List.mem_append.mp member with old | new
      · exact inductionHypothesis old
      · split at new
        · rename_i started
          rw [List.mem_singleton.mp new]
          exact ⟨BitVec.le_def.mp (BitVec.not_lt.mp started.2.2), n, rfl⟩
        · exact absurd new List.not_mem_nil

theorem length_sent (tx : Transmitter w) (n : Nat) : tx.store.taken n = (tx.sent n).length := by
  induction n with
  | zero => rfl
  | succ n inductionHypothesis =>
    rw [TxFifoRun.taken, sent, List.length_append, inductionHypothesis]
    cases (tx.store.tick n).axis with
    | none => rfl
    | some axis =>
      rw [Option.any_some]
      cases accepted : (tx.store.fifo n).wr.accepts axis <;> simp [accepted]

/-- What is sent is the beginning of a stream in frames. -/
theorem exists_beats (tx : Transmitter w) (room : 12 ≤ 2 ^ w)
    (fits : ∀ n, ∀ bytes ∈ tx.starts n, 2 * beatCount bytes + 8 ≤ 2 ^ w) :
    ∃ beats, InFrames ((2 ^ w - 8) / 2) beats ∧
      ∀ n p beat, (tx.sent n)[p]? = some beat → beats p = beat := by
  obtain ⟨job, jobs, padded⟩ := exists_stream (16 : BitVec 16) tx.starts_mono
  obtain ⟨form, formed, _⟩ := exists_stream ((0, false) : BitVec 8 × Bool)
    (joined_mono :
      ∀ {n m : Nat}, n ≤ m → joined (frameMarks ∘ job) n <+: joined (frameMarks ∘ job) m)
  obtain ⟨data, carried, _⟩ := exists_stream (0 : BitVec 64)
    (fun le => (tx.sent_mono le).map TxBeat.tdata :
      ∀ {n m : Nat}, n ≤ m → (tx.sent n).map TxBeat.tdata <+: (tx.sent m).map TxBeat.tdata)
  refine ⟨fun p => ⟨data p, (form p).1, (form p).2⟩, ?_, fun n p beat found => ?_⟩
  · refine inFrames_of_marks job (fun i => ?_) (fun i => ?_) fun i k inside => ?_
    · rcases padded i with ⟨n, found⟩ | pad
      · exact (mem_starts (List.mem_of_getElem? found)).1
      · rw [pad]
        decide
    · rcases padded i with ⟨n, found⟩ | pad
      · have fit := fits n _ (List.mem_of_getElem? found)
        omega
      · have two : beatCount 16 = 2 := rfl
        rw [pad, two]
        omega
    · have here : k < ((frameMarks ∘ job) i).length :=
        inside.trans_eq (length_frameMarks (job i)).symm
      show form _ = _
      rw [formed (i + 1) _ _ (getElem?_joined here)]
      exact getElem_frameMarks (job i) here
  · have begins : (List.range (tx.starts n).length).map job <+: tx.starts n :=
      map_range_prefix (jobs n) le_rfl
    have all : (List.range (tx.starts n).length).map job = tx.starts n :=
      begins.eq_of_length (by rw [List.length_map, List.length_range])
    have frames : (tx.starts n).flatMap frameMarks =
        joined (frameMarks ∘ job) (tx.starts n).length :=
      (congrArg (List.flatMap frameMarks) all).symm.trans (List.flatMap_map _ _ _)
    have early := tx.sent_prefix n
    rw [frames] at early
    have marks : form p = beat.marks := by
      refine formed _ p _ (getElem?_beginning early ?_)
      rw [List.getElem?_map, found, Option.map_some]
    have tdata : data p = beat.tdata := by
      refine carried n p _ ?_
      rw [List.getElem?_map, found, Option.map_some]
    show TxBeat.mk (data p) (form p).1 (form p).2 = beat
    rw [marks, tdata]
    rfl

section Law

variable {beats : Nat → TxBeat} (frames : InFrames ((2 ^ w - 8) / 2) beats)
  (follows : ∀ n p beat, (tx.sent n)[p]? = some beat → beats p = beat) (room : 12 ≤ 2 ^ w)
  (paced : tx.store.Paced)

include follows

theorem sends : tx.store.Sends beats := by
  intro n axis offered accepted
  have next : tx.sent (n + 1) = tx.sent n ++ [axis.beat] := by
    rw [sent, offered]
    simp only [accepted, if_true]
  refine (follows (n + 1) _ _ ?_).symm
  rw [tx.length_sent, next, List.getElem?_concat_length]

include frames room paced

theorem kept (n : Nat) : tx.store.Kept beats n :=
  TxFifoRun.kept frames (by omega) paced (sends follows) n

theorem keeps : tx.store.Keeps beats (tx.store.level beats) tx.store.written :=
  TxFifoRun.keeps frames (by omega) paced (sends follows)

/-- What is received is the beginning of the stream, and has been sent before. -/
theorem received_eq (n : Nat) :
    tx.received n = (List.range (tx.store.delivered n)).map beats ∧
      tx.store.delivered n ≤ (tx.sent n).length := by
  induction n with
  | zero => exact ⟨rfl, Nat.zero_le _⟩
  | succ n inductionHypothesis =>
    obtain ⟨same, le⟩ := inductionHypothesis
    have mono := (tx.sent_mono n.le_succ).length_le
    rw [received, FifoRun.delivered]
    cases delivers : (tx.store.fifo n).delivers (tx.store.tick n) with
    | false =>
      rw [if_neg Bool.false_ne_true, List.append_nil]
      exact ⟨same, le.trans mono⟩
    | true =>
      obtain ⟨beat, early⟩ := (kept frames follows room paced n).served.beat_of_delivers delivers
      rw [TxFifoRun.level, tx.length_sent] at early
      rw [if_pos rfl, Bool.toNat_true, List.range_succ, List.map_append, List.map_singleton, beat,
        same]
      exact ⟨rfl, (lt_of_framesBefore beats early).trans_le mono⟩

/-- All that is sent is received, once the frame is complete. -/
theorem exists_received (ready : tx.store.Ready) {n : Nat}
    (whole : (tx.sent n).map TxBeat.marks = (tx.starts n).flatMap frameMarks) :
    ∃ m, tx.sent n <+: tx.received m := by
  rcases List.eq_nil_or_concat (tx.sent n) with empty | ⟨before, last, split⟩
  · exact ⟨0, by rw [empty]; exact List.nil_prefix⟩
  rw [List.concat_eq_append] at split
  rcases List.eq_nil_or_concat (tx.starts n) with empty | ⟨earlier, bytes, taken⟩
  · rw [empty, split, List.map_append] at whole
    exact absurd whole (List.append_ne_nil_of_right_ne_nil _ (List.cons_ne_nil _ _))
  rw [List.concat_eq_append] at taken
  have long := (mem_starts (show bytes ∈ tx.starts n from taken ▸ List.mem_concat_self)).1
  have positive : beatCount bytes - 1 + 1 = beatCount bytes := by
    unfold beatCount
    omega
  have final : (frameMarks bytes).take (beatCount bytes - 1) ++
      [marksAt bytes (beatCount bytes - 1)] = frameMarks bytes := by
    rw [← take_frameMarks _ (by omega), positive, ← length_frameMarks, List.take_length]
  rw [split, taken, List.map_append, List.flatMap_append, List.flatMap_singleton, ← final,
    ← List.append_assoc] at whole
  have ends : last.tlast = true := by
    have marks := List.singleton_inj.mp (List.append_inj' whole rfl).2
    exact (congrArg Prod.snd marks).trans (decide_eq_true positive)
  have here : (tx.sent n)[before.length]? = some last := by
    rw [split]
    simp
  have length : (tx.sent n).length = before.length + 1 := by
    rw [split, List.length_append, List.length_singleton]
  have level : framesBefore beats before.length < tx.store.level beats n := by
    rw [TxFifoRun.level, tx.length_sent, length, framesBefore_succ, follows n _ _ here, ends]
    exact Nat.lt_succ_self _
  obtain ⟨m, passed⟩ := (keeps frames follows room paced).exists_delivered ready level
  refine ⟨m, ?_⟩
  rw [(received_eq frames follows room paced m).1]
  exact prefix_map_range (follows n) (by omega)

end Law

/-! ### The end of a frame -/

/-- The words of the frame that are not taken yet. -/
def Left (tx : Transmitter w) (left n : Nat) : Prop :=
  left = 0 ∧ (tx.gen n).pktState ≠ .s1 ∨
    ∃ bytes k, Framing bytes k (tx.gen n) ∧ left + k = beatCount bytes

theorem Left.framing {left n : Nat} (words : tx.Left (left + 1) n) :
    ∃ bytes k, Framing bytes k (tx.gen n) ∧ left + 1 + k = beatCount bytes :=
  words.resolve_left fun finished => Nat.succ_ne_zero left finished.1

/-- The FIFO takes what is offered at the tick. -/
def Open (tx : Transmitter w) (n : Nat) : Prop :=
  ∃ axis ∈ (tx.store.tick n).axis, (tx.store.fifo n).wr.wrFifoFull = false

theorem Left.stays {left n : Nat} (words : tx.Left (left + 1) n) (shut : ¬tx.Open n) :
    tx.Left (left + 1) (n + 1) := by
  obtain ⟨bytes, k, framing, count⟩ := words.framing
  refine Or.inr ⟨bytes, k, ?_, count⟩
  cases offered : (tx.store.tick n).axis with
  | none => rwa [(still offered).1]
  | some axis =>
    rw [gen_next offered]
    refine framing.stalled _ (Bool.eq_false_of_not_eq_true fun ready => ?_)
    exact shut ⟨axis, offered, (Bool.not_eq_true' _).mp ready⟩

theorem Left.falls {left n : Nat} (words : tx.Left (left + 1) n) (isOpen : tx.Open n) :
    ∃ fewer ≤ left, tx.Left fewer (n + 1) := by
  obtain ⟨bytes, k, framing, count⟩ := words.framing
  obtain ⟨axis, offered, free⟩ := isOpen
  have ready : (tx.input n).txAxisTready = true := (Bool.not_eq_true' _).mpr free
  rcases Nat.lt_or_eq_of_le (Nat.succ_le_of_lt framing.within) with more | last
  · refine ⟨left, le_rfl, Or.inr ⟨bytes, k + 1, ?_, by omega⟩⟩
    rw [gen_next offered]
    exact framing.next _ ready more
  · refine ⟨0, Nat.zero_le _, Or.inl ⟨rfl, ?_⟩⟩
    rw [gen_next offered, framing.last _ ready last]
    decide

/-- If the FIFO has room again and again, the generator comes to the end of its frame. -/
theorem exists_whole (opens : ∀ n, ∃ m, n ≤ m ∧ tx.Open m) (n : Nat) :
    ∃ m, n ≤ m ∧ (tx.gen m).pktState ≠ .s1 := by
  have now : ∃ left, tx.Left left n := by
    rcases tx.phase n with ⟨other, _⟩ | ⟨_, bytes, k, _, framing, _⟩
    · exact ⟨0, Or.inl ⟨rfl, other⟩⟩
    · exact ⟨beatCount bytes - k, Or.inr ⟨bytes, k, framing, Nat.sub_add_cancel framing.within.le⟩⟩
  obtain ⟨left, words⟩ := now
  obtain ⟨m, later, words⟩ := exists_counted_down (fun _ _ words shut => words.stays shut)
    (fun _ _ words isOpen => words.falls isOpen) opens words
  refine ⟨m, later, ?_⟩
  rcases words with ⟨_, other⟩ | ⟨bytes, k, framing, ended⟩
  · exact other
  · have within := framing.within
    omega

/-- And a write edge later it is ready for the next start. -/
theorem exists_rest (offers : tx.store.Offers) {n : Nat} (other : (tx.gen n).pktState ≠ .s1) :
    ∃ m, n ≤ m ∧ (tx.gen m).pktState = .s0 := by
  by_cases rest : (tx.gen n).pktState = .s0
  · exact ⟨n, le_rfl, rest⟩
  · obtain ⟨m, later, same, edge⟩ := exists_waiting_event (fun m => tx.gen m = tx.gen n) rfl
      (fun m same noEdge => (still (not_ne_iff.mp noEdge)).1.trans same) (offers n)
    obtain ⟨axis, offered⟩ := Option.ne_none_iff_exists'.mp edge
    refine ⟨m + 1, Nat.le_succ_of_le later, ?_⟩
    rw [gen_next offered, same, clock_outside _ _ other, if_neg fun started => rest started.1]

/-- Every start that the generator takes becomes one frame on the MAC's side, if two such frames and
eight words fit into the FIFO. -/
theorem starts_transmitted (tx : Transmitter w) (room : 12 ≤ 2 ^ w)
    (fits : ∀ n, ∀ bytes ∈ tx.starts n, 2 * beatCount bytes + 8 ≤ 2 ^ w)
    (paced : tx.store.Paced) : tx.Transmits := by
  obtain ⟨beats, frames, follows⟩ := tx.exists_beats room fits
  have received := received_eq frames follows room paced
  have opens (ready : tx.store.Ready) (offers : tx.store.Offers) : ∀ n, ∃ m, n ≤ m ∧ tx.Open m :=
    TxFifoRun.exists_room frames (by omega) paced (sends follows) ready offers
  refine ⟨fun n => ?_, tx.sent_prefix, fun n last final inner => ?_, fun ready offers n => ?_,
    fun ready offers n => ?_⟩
  · rw [(received n).1]
    exact map_range_prefix (follows n) (received n).2
  · rw [(received n).1] at final
    exact (kept frames follows room paced n).served.valid_of_last final inner
  · obtain ⟨later, after, other⟩ := exists_whole (opens ready offers) n
    have whole : (tx.sent later).map TxBeat.marks = (tx.starts later).flatMap frameMarks := by
      rcases tx.phase later with ⟨_, whole⟩ | ⟨_, _, _, _, framing, _⟩
      · exact whole
      · exact absurd framing.sending other
    obtain ⟨m, all⟩ := exists_received frames follows room paced ready whole
    refine ⟨m, (List.IsPrefix.flatMap (tx.starts_mono after) frameMarks).trans ?_⟩
    rw [← whole]
    exact all.map _
  · obtain ⟨later, after, other⟩ := exists_whole (opens ready offers) n
    obtain ⟨m, behind, rest⟩ := exists_rest offers other
    exact ⟨m, after.trans behind, rest⟩

/-- What the generator puts on the write interface, with its data. -/
def offered (gen : PacketGen) (input : GenInput) : WrAxis :=
  let out := gen.falling input
  ⟨out.txAxisTdata, txAxisTkeep out.bytesLeftReg, out.txAxisTvalid, out.txAxisTlast,
    out.txAxisTlast⟩

/-- A generator that is told to start at every clock, with a MAC that is always ready. -/
def repeating (w : Nat) (ram : BitVec 11 → BitVec 64) (bytes : BitVec 16) :
    Nat → AxiFifo w × PacketGen
  | 0 => (AxiFifo.configured.reset, .idle)
  | n + 1 =>
    let (fifo, gen) := repeating w ram bytes n
    let input : GenInput := ⟨true, bytes, !fifo.wr.wrFifoFull⟩
    (fifo.step true (.both (offered gen input) true 0), gen.clock ram input)

def repeater (w : Nat) (ram : BitVec 11 → BitVec 64) (bytes : BitVec 16) : Transmitter w where
  store :=
    { fifo := fun n => (repeating w ram bytes n).1
      tick := fun n =>
        let (fifo, gen) := repeating w ram bytes n
        .both (offered gen ⟨true, bytes, !fifo.wr.wrFifoFull⟩) true 0
      reset := ⟨AxiFifo.configured, rfl, rfl⟩
      clocked := fun _ => rfl
      tuser := fun _ axis => by
        rintro ⟨⟩
        rfl }
  gen n := (repeating w ram bytes n).2
  txStart _ := true
  txBytes _ := bytes
  ram _ := ram
  rests := rfl
  clocked _ := rfl
  wired _ axis := by
    rintro ⟨⟩
    exact ⟨rfl, rfl, rfl⟩

theorem twenty_bytes_transmitted : (repeater 4 (BitVec.setWidth 64) 20).Transmits := by
  refine starts_transmitted _ (by decide) (fun n bytes member => ?_) fun n => ?_
  · obtain ⟨_, m, rfl⟩ := mem_starts member
    exact (by decide : 2 * beatCount 20 + 8 ≤ 2 ^ 4)
  · show (repeater 4 (BitVec.setWidth 64) 20).store.reads n ≤ 3
    cases n with
    | zero => exact Nat.zero_le 3
    | succ n => exact Nat.zero_le 3

end Transmitter

end K71GbE.TenGigEth
