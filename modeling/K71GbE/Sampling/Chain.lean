/-
This file models the way of the samples from `channel_sel` to the host: the FIFOs
of different widths, the memory that is written and read in address order, and
the transmit FIFO.

Every FIFO passes on a word as soon as it holds one, at a time of its own, so a
run is any sequence of such moves. No FIFO overflows. The bytes that are under
way are always the bytes forwarded so far, in their order.
-/

import K71GbE.Clocked.Conduit
import K71GbE.Clocked.Machine
import K71GbE.Sampling.ChannelSel

namespace K71GbE.Sampling

open Clocked

/-- The bytes in the FIFOs, the words of the memory, and the bytes that the host received. -/
structure Chain where
  fifo16 : List (BitVec 8)
  fifo16to256 : List (BitVec 8)
  fifo64 : List (BitVec 8)
  fifo128 : List (BitVec 8)
  indataFifo : List (BitVec 8)
  memory : Nat → BitVec (64 * 8)
  written : Nat
  read : Nat
  read_le : read ≤ written
  outdataFifo1 : List (BitVec 8)
  outdataFifo0 : List (BitVec 8)
  txFifo : List (BitVec 8)
  received : List (BitVec 8)

/-- One move: a word comes from the converters, or a FIFO or the memory passes on a word. -/
inductive Move where
  | sample (indataQ : BitVec 256)
  | glue
  | collect
  | store
  | fetch
  | shift
  | send
  | receive

namespace Chain

/-- Nothing is under way. -/
def empty (memory : Nat → BitVec (64 * 8)) : Chain :=
  ⟨[], [], [], [], [], memory, 0, 0, Nat.le_refl 0, [], [], [], []⟩

/-- A word at the input of `channel_sel` is written to the FIFO of the selection. With all
channels selected it goes to the input FIFO of the memory at once. -/
def sample (sel : BitVec 8) (chain : Chain) (indataQ : BitVec 256) : Chain :=
  let q := indataQI indataQ
  match route sel with
  | .fifo16 => { chain with fifo16 := push 2 chain.fifo16 (fifo16IndataQ sel q) }
  | .fifo64 => { chain with fifo64 := push 8 chain.fifo64 (fifo64IndataQ sel q) }
  | .fifo128 => { chain with fifo128 := push 16 chain.fifo128 (fifo128IndataQ sel q) }
  | .direct => { chain with indataFifo := push 32 chain.indataFifo q }
  | .others => chain

/-- `fifo16to64` and `fifo64to256`, glued together. -/
def glue (chain : Chain) : Chain :=
  let passed := pass 8 chain.fifo16 chain.fifo16to256
  { chain with fifo16 := passed.1, fifo16to256 := passed.2 }

/-- A word of 256 bits from the FIFO of the selection to `fifo256to512`. -/
def collect (sel : BitVec 8) (chain : Chain) : Chain :=
  match route sel with
  | .fifo16 =>
    let passed := pass 32 chain.fifo16to256 chain.indataFifo
    { chain with fifo16to256 := passed.1, indataFifo := passed.2 }
  | .fifo64 =>
    let passed := pass 32 chain.fifo64 chain.indataFifo
    { chain with fifo64 := passed.1, indataFifo := passed.2 }
  | .fifo128 =>
    let passed := pass 32 chain.fifo128 chain.indataFifo
    { chain with fifo128 := passed.1, indataFifo := passed.2 }
  | _ => chain

/-- A word of 512 bits is written at the next address of the memory. -/
def store (chain : Chain) : Chain :=
  match pop 64 chain.indataFifo with
  | some (word, rest) =>
    { chain with
      indataFifo := rest
      memory := Function.update chain.memory chain.written word
      written := chain.written + 1
      read_le := Nat.le_succ_of_le chain.read_le }
  | none => chain

/-- The next address that was written is read into `fifo512to128`. -/
def fetch (chain : Chain) : Chain :=
  if more : chain.read < chain.written then
    { chain with
      read := chain.read + 1
      read_le := more
      outdataFifo1 := push 64 chain.outdataFifo1 (chain.memory chain.read) }
  else chain

/-- `fifo512to128` and `fifo128to32`, glued together. -/
def shift (chain : Chain) : Chain :=
  let passed := pass 16 chain.outdataFifo1 chain.outdataFifo0
  { chain with outdataFifo1 := passed.1, outdataFifo0 := passed.2 }

/-- A word of 32 bits to `fifo32to8`. -/
def send (chain : Chain) : Chain :=
  let passed := pass 4 chain.outdataFifo0 chain.txFifo
  { chain with outdataFifo0 := passed.1, txFifo := passed.2 }

/-- A byte to the host. -/
def receive (chain : Chain) : Chain :=
  let passed := pass 1 chain.txFifo chain.received
  { chain with txFifo := passed.1, received := passed.2 }

/-- One move. -/
def step (sel : BitVec 8) (chain : Chain) : Move → Chain
  | .sample indataQ => chain.sample sel indataQ
  | .glue => chain.glue
  | .collect => chain.collect sel
  | .store => chain.store
  | .fetch => chain.fetch
  | .shift => chain.shift
  | .send => chain.send
  | .receive => chain.receive

/-! ### The bytes under way -/

/-- The bytes in the FIFOs of the selection. -/
def held (sel : BitVec 8) (chain : Chain) : List (BitVec 8) :=
  match route sel with
  | .fifo16 => chain.fifo16to256 ++ chain.fifo16
  | .fifo64 => chain.fifo64
  | .fifo128 => chain.fifo128
  | _ => []

/-- The bytes of the words that are written and not yet read. -/
def stored (chain : Chain) : List (BitVec 8) :=
  (List.range' chain.read (chain.written - chain.read)).flatMap fun a =>
    msbFirst 8 64 (chain.memory a)

/-- All bytes that were forwarded, the first ones at the host. -/
def bytes (sel : BitVec 8) (chain : Chain) : List (BitVec 8) :=
  chain.received ++ (chain.txFifo ++ (chain.outdataFifo0 ++ (chain.outdataFifo1 ++
    (chain.stored ++ (chain.indataFifo ++ chain.held sel)))))

/-- The bytes that a move adds. -/
def added (sel : BitVec 8) (_ : Chain) : Move → List (BitVec 8)
  | .sample indataQ => forwarded sel indataQ
  | _ => []

theorem sample_bytes (sel : BitVec 8) (chain : Chain) (indataQ : BitVec 256) :
    (chain.sample sel indataQ).bytes sel = chain.bytes sel ++ forwarded sel indataQ := by
  unfold sample forwarded bytes held
  cases route sel <;> simp only [List.append_assoc, push, stored, List.append_nil]

theorem glue_bytes (sel : BitVec 8) (chain : Chain) : chain.glue.bytes sel = chain.bytes sel := by
  have kept := pass_append 8 chain.fifo16 chain.fifo16to256
  unfold bytes held
  cases route sel with
  | fifo16 => exact congrArg (fun bytes => _ ++ (_ ++ (_ ++ (_ ++ (_ ++ (_ ++ bytes)))))) kept
  | _ => rfl

theorem collect_bytes (sel : BitVec 8) (chain : Chain) :
    (chain.collect sel).bytes sel = chain.bytes sel := by
  unfold collect bytes held
  cases route sel with
  | fifo16 =>
    have kept := pass_append 32 chain.fifo16to256 chain.indataFifo
    simp only [stored, ← List.append_assoc _ _ chain.fifo16, kept]
  | fifo64 =>
    have kept := pass_append 32 chain.fifo64 chain.indataFifo
    simp only [stored, kept]
  | fifo128 =>
    have kept := pass_append 32 chain.fifo128 chain.indataFifo
    simp only [stored, kept]
  | _ => rfl

/-- Storing takes the word from the FIFO to the end of what is stored. -/
theorem store_bytes (sel : BitVec 8) (chain : Chain) : chain.store.bytes sel = chain.bytes sel := by
  unfold store
  rcases Nat.lt_or_ge chain.indataFifo.length 64 with short | enough
  · rw [pop_of_lt short]
  · rw [pop_of_le enough]
    have one : chain.written + 1 - chain.read = chain.written - chain.read + 1 :=
      Nat.succ_sub chain.read_le
    have last : chain.read + (chain.written - chain.read) = chain.written :=
      Nat.add_sub_cancel' chain.read_le
    have word := msbFirst_pop enough
    have older : (List.range' chain.read (chain.written - chain.read)).flatMap (fun address =>
          msbFirst 8 64 (Function.update chain.memory chain.written
            (ofMsbFirst (chain.indataFifo.take 64)) address)) = chain.stored := by
      refine List.flatMap_congr fun address inside => ?_
      have below := (List.mem_range'_1.mp inside).2
      rw [Function.update_of_ne (by omega)]
    simp only [bytes, held, stored, one, List.range'_1_concat, List.flatMap_append,
      List.flatMap_singleton, last, Function.update_self, word, List.append_assoc]
    rw [older, ← List.append_assoc (chain.indataFifo.take 64), List.take_append_drop]
    rfl

/-- Fetching takes the first stored word to the FIFO. -/
theorem fetch_bytes (sel : BitVec 8) (chain : Chain) : chain.fetch.bytes sel = chain.bytes sel := by
  unfold fetch
  split_ifs with more
  · have one : chain.written - chain.read = chain.written - (chain.read + 1) + 1 := by omega
    simp only [bytes, held, stored, push]
    rw [one, List.range'_succ, List.flatMap_cons]
    simp only [List.append_assoc]
  · rfl

/-- The bytes behind the memory. -/
def fetched (chain : Chain) : List (BitVec 8) :=
  chain.received ++ (chain.txFifo ++ (chain.outdataFifo0 ++ chain.outdataFifo1))

theorem shift_fetched (chain : Chain) : chain.shift.fetched = chain.fetched :=
  congrArg (fun bytes => chain.received ++ (chain.txFifo ++ bytes))
    (pass_append 16 chain.outdataFifo1 chain.outdataFifo0)

theorem send_fetched (chain : Chain) : chain.send.fetched = chain.fetched := by
  have kept := pass_append 4 chain.outdataFifo0 chain.txFifo
  unfold send fetched
  simp only [← List.append_assoc _ (pass _ _ _).1, kept]
  simp only [List.append_assoc]

theorem receive_fetched (chain : Chain) : chain.receive.fetched = chain.fetched := by
  have kept := pass_append 1 chain.txFifo chain.received
  unfold receive fetched
  simp only [← List.append_assoc _ (pass _ _ _).1, kept]
  simp only [List.append_assoc]

theorem bytes_eq_fetched (sel : BitVec 8) (chain : Chain) :
    chain.bytes sel =
      chain.fetched ++ (chain.stored ++ (chain.indataFifo ++ chain.held sel)) := by
  unfold bytes fetched
  simp only [List.append_assoc]

theorem shift_bytes (sel : BitVec 8) (chain : Chain) : chain.shift.bytes sel = chain.bytes sel := by
  rw [bytes_eq_fetched, bytes_eq_fetched, shift_fetched]
  rfl

theorem send_bytes (sel : BitVec 8) (chain : Chain) : chain.send.bytes sel = chain.bytes sel := by
  rw [bytes_eq_fetched, bytes_eq_fetched, send_fetched]
  rfl

theorem receive_bytes (sel : BitVec 8) (chain : Chain) :
    chain.receive.bytes sel = chain.bytes sel := by
  rw [bytes_eq_fetched, bytes_eq_fetched, receive_fetched]
  rfl

/-- A move adds its bytes at the end and keeps the others. -/
theorem step_bytes (sel : BitVec 8) (chain : Chain) (move : Move) :
    (chain.step sel move).bytes sel = chain.bytes sel ++ chain.added sel move := by
  cases move with
  | sample indataQ => exact chain.sample_bytes sel indataQ
  | glue => exact (chain.glue_bytes sel).trans (List.append_nil _).symm
  | collect => exact (chain.collect_bytes sel).trans (List.append_nil _).symm
  | store => exact (chain.store_bytes sel).trans (List.append_nil _).symm
  | fetch => exact (chain.fetch_bytes sel).trans (List.append_nil _).symm
  | shift => exact (chain.shift_bytes sel).trans (List.append_nil _).symm
  | send => exact (chain.send_bytes sel).trans (List.append_nil _).symm
  | receive => exact (chain.receive_bytes sel).trans (List.append_nil _).symm

/-! ### Whole words under way -/

/-- No FIFO and no word of the memory can be passed on. -/
def Idle (sel : BitVec 8) (chain : Chain) : Prop :=
  ∀ move, (∀ indataQ, move ≠ .sample indataQ) → chain.step sel move = chain

/-- A FIFO holds whole words of the FIFO before it. -/
structure Whole (chain : Chain) : Prop where
  fifo16to256 : 8 ∣ chain.fifo16to256.length
  indataFifo : 32 ∣ chain.indataFifo.length
  outdataFifo1 : 16 ∣ chain.outdataFifo1.length
  outdataFifo0 : 4 ∣ chain.outdataFifo0.length
  fetched : 64 ∣ chain.fetched.length

theorem whole_empty (memory : Nat → BitVec (64 * 8)) : (empty memory).Whole :=
  ⟨dvd_zero 8, dvd_zero 32, dvd_zero 16, dvd_zero 4, dvd_zero 64⟩

theorem Whole.step {chain : Chain} (whole : chain.Whole) (sel : BitVec 8) (move : Move) :
    (chain.step sel move).Whole := by
  cases move with
  | sample indataQ =>
    show (chain.sample sel indataQ).Whole
    unfold sample
    cases route sel with
    | direct =>
      refine { whole with indataFifo := ?_ }
      show 32 ∣ (chain.indataFifo ++ msbFirst 8 32 (indataQI indataQ)).length
      rw [List.length_append, length_msbFirst]
      exact Nat.dvd_add whole.indataFifo (dvd_refl 32)
    | _ => exact { whole with }
  | glue => exact { whole with fifo16to256 := dvd_length_pass_snd _ whole.fifo16to256 (dvd_refl 8) }
  | collect =>
    show (chain.collect sel).Whole
    unfold collect
    cases route sel with
    | fifo16 =>
      exact { whole with
        fifo16to256 := dvd_length_pass_fst _ whole.fifo16to256 (by decide)
        indataFifo := dvd_length_pass_snd _ whole.indataFifo (dvd_refl 32) }
    | fifo64 =>
      exact { whole with indataFifo := dvd_length_pass_snd _ whole.indataFifo (dvd_refl 32) }
    | fifo128 =>
      exact { whole with indataFifo := dvd_length_pass_snd _ whole.indataFifo (dvd_refl 32) }
    | _ => exact whole
  | store =>
    show chain.store.Whole
    unfold store
    rcases Nat.lt_or_ge chain.indataFifo.length 64 with short | enough
    · rw [pop_of_lt short]
      exact whole
    · rw [pop_of_le enough]
      refine { whole with indataFifo := ?_ }
      rw [List.length_drop]
      exact Nat.dvd_sub whole.indataFifo (by decide)
  | fetch =>
    show chain.fetch.Whole
    unfold fetch
    split_ifs with more
    · refine { whole with outdataFifo1 := ?_, fetched := ?_ }
      · show 16 ∣ (chain.outdataFifo1 ++ msbFirst 8 64 (chain.memory chain.read)).length
        rw [List.length_append, length_msbFirst]
        exact Nat.dvd_add whole.outdataFifo1 (by decide)
      · show 64 ∣ (chain.received ++ (chain.txFifo ++ (chain.outdataFifo0 ++
          (chain.outdataFifo1 ++ msbFirst 8 64 (chain.memory chain.read))))).length
        rw [← List.append_assoc chain.outdataFifo0, ← List.append_assoc chain.txFifo,
          ← List.append_assoc, List.length_append, length_msbFirst]
        exact Nat.dvd_add whole.fetched (dvd_refl 64)
    · exact whole
  | shift =>
    exact { whole with
      outdataFifo1 := dvd_length_pass_fst _ whole.outdataFifo1 (dvd_refl 16)
      outdataFifo0 := dvd_length_pass_snd _ whole.outdataFifo0 (by decide)
      fetched := chain.shift_fetched.symm ▸ whole.fetched }
  | send =>
    exact { whole with
      outdataFifo0 := dvd_length_pass_fst _ whole.outdataFifo0 (dvd_refl 4)
      fetched := chain.send_fetched.symm ▸ whole.fetched }
  | receive => exact { whole with fetched := chain.receive_fetched.symm ▸ whole.fetched }

/-! ### Nothing left to pass on -/

section Idle

variable {sel : BitVec 8} {chain : Chain}

/-- Behind the memory, everything went to the host. -/
theorem Idle.behind (idle : chain.Idle sel) (whole : chain.Whole) :
    chain.txFifo = [] ∧ chain.outdataFifo0 = [] ∧ chain.outdataFifo1 = [] := by
  have shift := idle .shift fun _ => nofun
  have send := idle .send fun _ => nofun
  have receive := idle .receive fun _ => nofun
  have first : chain.outdataFifo1 = [] := by
    have short := length_lt_of_pass_eq (by decide)
      (Prod.ext (congrArg outdataFifo1 shift) (congrArg outdataFifo0 shift))
    exact List.eq_nil_of_length_eq_zero (Nat.eq_zero_of_dvd_of_lt whole.outdataFifo1 short)
  have second : chain.outdataFifo0 = [] := by
    have short := length_lt_of_pass_eq (by decide)
      (Prod.ext (congrArg outdataFifo0 send) (congrArg Chain.txFifo send))
    exact List.eq_nil_of_length_eq_zero (Nat.eq_zero_of_dvd_of_lt whole.outdataFifo0 short)
  have last : chain.txFifo = [] := by
    have short := length_lt_of_pass_eq (by decide)
      (Prod.ext (congrArg Chain.txFifo receive) (congrArg received receive))
    exact List.eq_nil_of_length_eq_zero (Nat.lt_one_iff.mp short)
  exact ⟨last, second, first⟩

/-- Everything that was written was read. -/
theorem Idle.stored (idle : chain.Idle sel) : chain.stored = [] := by
  have fetch : chain.fetch = chain := idle .fetch fun _ => nofun
  have all : ¬chain.read < chain.written := by
    intro more
    unfold Chain.fetch at fetch
    rw [dif_pos more] at fetch
    have next : chain.read + 1 = chain.read := congrArg Chain.read fetch
    omega
  have empty : chain.written - chain.read = 0 := by omega
  rw [Chain.stored, empty]
  rfl

/-- In front of the memory, less than a word of it is left. -/
theorem Idle.held (idle : chain.Idle sel) (whole : chain.Whole) :
    (chain.indataFifo ++ chain.held sel).length < 64 := by
  have glue : chain.glue = chain := idle .glue fun _ => nofun
  have collect : chain.collect sel = chain := idle .collect fun _ => nofun
  have store : chain.store = chain := idle .store fun _ => nofun
  have half : chain.indataFifo.length ≤ 32 := by
    have short : chain.indataFifo.length < 64 := by
      refine Nat.lt_of_not_le fun enough => ?_
      unfold Chain.store at store
      rw [pop_of_le enough] at store
      have next : chain.written + 1 = chain.written := congrArg Chain.written store
      omega
    have parts := whole.indataFifo
    omega
  unfold Chain.collect at collect
  unfold Chain.held
  rw [List.length_append]
  cases selected : route sel <;> rw [selected] at collect
  case fifo16 =>
    have few := length_lt_of_pass_eq (by decide)
      (Prod.ext (congrArg fifo16to256 collect) (congrArg indataFifo collect))
    have fewer := length_lt_of_pass_eq (by decide)
      (Prod.ext (congrArg fifo16 glue) (congrArg fifo16to256 glue))
    have parts := whole.fifo16to256
    rw [List.length_append]
    omega
  case fifo64 =>
    have few := length_lt_of_pass_eq (by decide)
      (Prod.ext (congrArg fifo64 collect) (congrArg indataFifo collect))
    show _ + chain.fifo64.length < 64
    omega
  case fifo128 =>
    have few := length_lt_of_pass_eq (by decide)
      (Prod.ext (congrArg fifo128 collect) (congrArg indataFifo collect))
    show _ + chain.fifo128.length < 64
    omega
  all_goals
    show _ + 0 < 64
    omega

/-- The host received all bytes but those of an unfinished word of the memory. -/
theorem Idle.length_received (idle : chain.Idle sel) (whole : chain.Whole) :
    chain.received.length = (chain.bytes sel).length / 64 * 64 := by
  obtain ⟨last, second, first⟩ := idle.behind whole
  have left := idle.held whole
  have words := whole.fetched
  rw [fetched, last, second, first] at words
  rw [bytes, last, second, first, idle.stored]
  simp only [List.nil_append, List.append_nil, List.length_append] at left words ⊢
  omega

end Idle

/-! ### Passing on comes to an end -/

/-- The bytes under way, counted by the stages they still have before them. -/
def ahead (chain : Chain) : Nat :=
  8 * chain.fifo16.length + 7 * chain.fifo16to256.length + 7 * chain.fifo64.length +
    7 * chain.fifo128.length + 6 * chain.indataFifo.length +
    5 * 64 * (chain.written - chain.read) + 4 * chain.outdataFifo1.length +
    3 * chain.outdataFifo0.length + 2 * chain.txFifo.length

/-- A move that passes something on brings it a stage further. -/
theorem ahead_step (sel : BitVec 8) (chain : Chain) {move : Move}
    (passing : ∀ indataQ, move ≠ .sample indataQ) (changed : chain.step sel move ≠ chain) :
    (chain.step sel move).ahead < chain.ahead := by
  cases move with
  | sample indataQ => exact absurd rfl (passing indataQ)
  | glue =>
    obtain ⟨source, target⟩ := length_pass (n := 8) chain.fifo16 chain.fifo16to256
      fun same => changed (by simp only [step, glue, same])
    simp only [step, glue, ahead]
    omega
  | collect =>
    simp only [step, collect] at changed ⊢
    cases selected : route sel <;> simp only [selected] at changed ⊢
    case fifo16 =>
      obtain ⟨source, target⟩ := length_pass (n := 32) chain.fifo16to256 chain.indataFifo
        fun same => changed (by rw [same])
      simp only [ahead]
      omega
    case fifo64 =>
      obtain ⟨source, target⟩ := length_pass (n := 32) chain.fifo64 chain.indataFifo
        fun same => changed (by rw [same])
      simp only [ahead]
      omega
    case fifo128 =>
      obtain ⟨source, target⟩ := length_pass (n := 32) chain.fifo128 chain.indataFifo
        fun same => changed (by rw [same])
      simp only [ahead]
      omega
    all_goals exact absurd rfl changed
  | store =>
    simp only [step, store] at changed ⊢
    rcases Nat.lt_or_ge chain.indataFifo.length 64 with short | enough
    · rw [pop_of_lt short] at changed
      exact absurd rfl changed
    · have order := chain.read_le
      rw [pop_of_le enough]
      simp only [ahead, List.length_drop]
      omega
  | fetch =>
    simp only [step, fetch] at changed ⊢
    split_ifs at changed ⊢ with more
    · simp only [ahead, push, List.length_append, length_msbFirst]
      omega
    · exact absurd rfl changed
  | shift =>
    obtain ⟨source, target⟩ := length_pass (n := 16) chain.outdataFifo1 chain.outdataFifo0
      fun same => changed (by simp only [step, shift, same])
    simp only [step, shift, ahead]
    omega
  | send =>
    obtain ⟨source, target⟩ := length_pass (n := 4) chain.outdataFifo0 chain.txFifo
      fun same => changed (by simp only [step, send, same])
    simp only [step, send, ahead]
    omega
  | receive =>
    obtain ⟨source, target⟩ := length_pass (n := 1) chain.txFifo chain.received
      fun same => changed (by simp only [step, receive, same])
    simp only [step, receive, ahead]
    omega

/-- With no further words from the converters, passing on ends in an idle chain. -/
theorem exists_idle (sel : BitVec 8) (chain : Chain) :
    ∃ moves, (∀ indataQ, Move.sample indataQ ∉ moves) ∧
      (run (step sel) chain moves).Idle sel := by
  induction left : chain.ahead using Nat.strong_induction_on generalizing chain with
  | _ left inductionHypothesis =>
    by_cases idle : chain.Idle sel
    · exact ⟨[], fun _ => List.not_mem_nil, idle⟩
    · unfold Idle at idle
      push Not at idle
      obtain ⟨move, passing, changed⟩ := idle
      have fewer := ahead_step sel chain passing changed
      obtain ⟨moves, unsampled, reached⟩ :=
        inductionHypothesis _ (left ▸ fewer) (chain.step sel move) rfl
      refine ⟨move :: moves, fun indataQ member => ?_, reached⟩
      rcases List.mem_cons.mp member with same | later
      · exact passing indataQ same.symm
      · exact unsampled indataQ later

/-! ### Runs -/

/-- The words that come from the converters during a run. -/
def sampled (moves : List Move) : List (BitVec 256) :=
  moves.filterMap fun
    | .sample indataQ => some indataQ
    | _ => none

theorem log_added (sel : BitVec 8) (chain : Chain) (moves : List Move) :
    log (step sel) (added sel) chain moves = (sampled moves).flatMap (forwarded sel) := by
  induction moves generalizing chain with
  | nil => rfl
  | cons move rest inductionHypothesis =>
    rw [log_cons, inductionHypothesis]
    cases move <;> rfl

/-- The bytes under way are those forwarded during the run. -/
theorem run_bytes (sel : BitVec 8) (memory : Nat → BitVec (64 * 8)) (moves : List Move) :
    (run (step sel) (empty memory) moves).bytes sel = (sampled moves).flatMap (forwarded sel) := by
  have start : (empty memory).bytes sel = [] := by
    unfold bytes held
    cases route sel <;> rfl
  rw [← log_added sel (empty memory) moves]
  exact log_invariant (fun (chain : Chain) events => chain.bytes sel = events)
    (fun chain move events same _ => (chain.step_bytes sel move).trans (same ▸ rfl)) start
    (show Along (step sel) (fun _ _ => True) _ moves from along_of_forall fun _ _ _ => trivial)

theorem run_whole (sel : BitVec 8) (memory : Nat → BitVec (64 * 8)) (moves : List Move) :
    (run (step sel) (empty memory) moves).Whole :=
  run_always Whole (fun _ move whole => whole.step sel move) (whole_empty memory) moves

end Chain

end K71GbE.Sampling
