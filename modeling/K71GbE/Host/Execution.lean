/-
This file proves that the encoders of the host agree with the FPGA: executing
the command words of a sequence of calls has the effect that the calls name, on
the registers, the memory, the answers and the pulses, and no other.

The interpreter is run on the words first, and `control_interface` with its FIFOs
follows the interpreter under every schedule.
-/

import K71GbE.Control.Pulses
import K71GbE.Host.Device

namespace K71GbE.Host

open Clocked Control

/-! ### What the words of a call ask for -/

/-- Whether a command word reads, and what it addresses. -/
def kind (word : BitVec 32) : Bool × Target := (readNotWrite word, target (addressI word))

theorem kind_word (tag data : BitVec 16) :
    kind (tag ++ data) = (tag.getLsbD 15, target (tag.extractLsb' 0 12).toNat) := by
  rw [kind, readNotWrite_word, addressI_word]

theorem map_kind_addressWords (addr : BitVec 32) :
    (Call.addressWords addr).map kind = [(false, .addrLow), (false, .addrHigh)] := by
  rw [Call.addressWords, List.map_cons, List.map_singleton, kind_word, kind_word]
  rfl

theorem map_kind_storeWords (val : BitVec 32) :
    (Call.storeWords val).map kind = [(false, .memLow), (false, .memHigh)] := by
  rw [Call.storeWords, List.map_cons, List.map_singleton, kind_word, kind_word]
  rfl

/-- The kinds of the words of a call. -/
def Call.kinds : Call → List (Bool × Target)
  | .writeRegister i _ => [(false, .configReg i)]
  | .readRegister i => [(true, .configReg i)]
  | .readStatus i => [(true, .statusReg i)]
  | .sendPulse _ => [(false, .pulseReg)]
  | .writeMemory _ aval more =>
    [(false, .addrLow), (false, .addrHigh)] ++
      (aval :: more).flatMap fun _ => [(false, .memLow), (false, .memHigh)]
  | .readMemory _ _ => [(false, .addrLow), (false, .addrHigh), (false, .memioCnt), (true, .memHigh)]

theorem map_kind_words (call : Call) : call.words.map kind = call.kinds := by
  cases call with
  | writeRegister i val =>
    rw [Call.words, List.map_singleton, kind_word, (registerTag i).1, (registerTag i).2]
    rfl
  | readRegister i =>
    rw [Call.words, List.map_singleton, kind_word, (readRegisterTag i).1, (readRegisterTag i).2]
    rfl
  | readStatus i =>
    rw [Call.words, List.map_singleton, kind_word, (readStatusTag i).1, (readStatusTag i).2]
    rfl
  | sendPulse mask =>
    rw [Call.words, List.map_singleton, kind_word]
    rfl
  | writeMemory addr aval more =>
    rw [Call.words, List.map_append, map_kind_addressWords, List.map_flatMap]
    exact congrArg (_ ++ ·) (List.flatMap_congr fun val _ => map_kind_storeWords val)
  | readMemory addr n =>
    rw [Call.words, List.map_append, map_kind_addressWords, List.map_cons, List.map_singleton,
      kind_word, kind_word]
    rfl

theorem kind_mem_kinds {call : Call} {word : BitVec 32} (member : word ∈ call.words) :
    kind word ∈ call.kinds :=
  map_kind_words call ▸ List.mem_map_of_mem member

/-- No call takes words from the data FIFO. -/
theorem notDataFifo (call : Call) : (false, Target.dataFifo) ∉ call.kinds := by
  cases call <;> simp [Call.kinds]

theorem moved_step {state : Interpreter} {word : BitVec 32}
    (other : kind word ≠ (false, .dataFifo)) : (state.step word).moved = state.moved := by
  unfold Interpreter.step
  split
  · split <;> rfl
  · rename_i write
    split <;> first | rfl | (rename_i dataFifo; simp [kind, write, dataFifo] at other)

theorem moved_run {words : List (BitVec 32)} (state : Interpreter)
    (other : ∀ word ∈ words, kind word ≠ (false, .dataFifo)) :
    (run Interpreter.step state words).moved = state.moved := by
  induction words generalizing state with
  | nil => rfl
  | cons word rest inductionHypothesis =>
    obtain ⟨first, later⟩ := List.forall_mem_cons.mp other
    rw [run_cons, inductionHypothesis _ later, moved_step first]

/-- A word that neither reads nor takes words from the data FIFO is not answered. -/
theorem reply_of_write (data : Nat → BitVec 32) (state : Interpreter) {given : Given}
    (write : (kind given.word).1 = false) (other : (kind given.word).2 ≠ .dataFifo) :
    state.reply data given = [] := by
  have write : readNotWrite given.word = false := write
  have other : target (addressI given.word) ≠ .dataFifo := other
  unfold Interpreter.reply
  rw [write, if_neg Bool.false_ne_true]
  split
  · contradiction
  · rfl

/-! ### What the words of a call put out -/

/-- What is put out at the words of a list, by what each kind of word puts out. -/
theorem log_eq_nil {Event : Type*} {observe : Interpreter → Given → List Event}
    (silent : Bool × Target → Prop)
    (nothing : ∀ state given, silent (kind given.word) → observe state given = [])
    {givens : List Given} (state : Interpreter)
    (quiet : ∀ given ∈ givens, silent (kind given.word)) :
    log (fun state given => Interpreter.step state (Given.word given)) observe state givens =
      [] := by
  induction givens generalizing state with
  | nil => rfl
  | cons given rest inductionHypothesis =>
    obtain ⟨first, later⟩ := List.forall_mem_cons.mp quiet
    rw [log_cons, nothing state given first, inductionHypothesis _ later, List.append_nil]

/-- A READ of anything but the memory is answered with one register. -/
theorem reply_of_readRegister (data : Nat → BitVec 32) (state : Interpreter) {given : Given}
    {register : Target} (asked : kind given.word = (true, register)) (other : register ≠ .memHigh) :
    state.reply data given = [registerWord (state.readValue given)] := by
  obtain ⟨read, selected⟩ := Prod.ext_iff.mp asked
  have read : readNotWrite given.word = true := read
  have selected : target (addressI given.word) = register := selected
  unfold Interpreter.reply
  rw [if_pos read, selected]
  cases register with
  | memHigh => contradiction
  | _ => rfl

/-- The interpreter needs only the words of what it is given. -/
theorem run_word (state : Interpreter) (givens : List Given) :
    run (fun state given => Interpreter.step state (Given.word given)) state givens =
      run Interpreter.step state (givens.map Given.word) :=
  List.foldl_map.symm

/-- The status inputs at the first of some words. -/
def statusOf (givens : List Given) : BitVec 176 := (givens.head?.map Given.status).getD 0

/-- The status inputs at the first word of each call. -/
def statuses : List Call → List Given → List (BitVec 176)
  | [], _ => []
  | call :: rest, givens => statusOf givens :: statuses rest (givens.drop call.words.length)

theorem words_ne_nil (call : Call) : call.words ≠ [] := by
  cases call <;> exact List.cons_ne_nil _ _

theorem statusOf_append {front back : List Given} (nonempty : front ≠ []) :
    statusOf (front ++ back) = statusOf front := by
  rw [statusOf, List.head?_append_of_ne_nil _ nonempty, statusOf]

section Calls

variable (data : Nat → BitVec 32) (state : Interpreter) {givens : List Given}

/-- The writing calls are not answered. -/
theorem log_reply_of_write {call : Call} (words : givens.map Given.word = call.words)
    (writes : ∀ asked ∈ call.kinds, asked.1 = false) :
    log (fun state given => Interpreter.step state (Given.word given)) (Interpreter.reply data)
      state givens = [] := by
  refine log_eq_nil (fun asked => asked ∈ call.kinds) (fun state given asked => ?_) state
    fun given member => kind_mem_kinds (words ▸ List.mem_map_of_mem member)
  have write := writes _ asked
  refine reply_of_write data state write fun dataFifo => notDataFifo call ?_
  rwa [← write, ← dataFifo]

/-- A call of one word that reads a register is answered with it. -/
theorem log_reply_register {call : Call} {register : Target}
    (words : givens.map Given.word = call.words) (kinds : call.kinds = [(true, register)])
    (other : register ≠ .memHigh) :
    ∃ given, givens = [given] ∧ target (addressI given.word) = register ∧
      log (fun state given => Interpreter.step state (Given.word given)) (Interpreter.reply data)
        state givens = [registerWord (state.readValue given)] := by
  have single : (givens.map Given.word).map kind = [(true, register)] := by
    rw [words, map_kind_words, kinds]
  rw [List.map_map] at single
  obtain ⟨given, rfl, asked⟩ := List.map_eq_singleton_iff.mp single
  have asked : kind given.word = (true, register) := asked
  refine ⟨given, rfl, congrArg Prod.snd asked, ?_⟩
  rw [log_cons, log_nil, List.append_nil, reply_of_readRegister data state asked other]

/-- Of the words of a memory read only the last one is answered; the three before it set the address
and the count. -/
theorem log_reply_readMemory {addr : BitVec 32} {n : Count}
    (words : givens.map Given.word = (Call.readMemory addr n).words) :
    log (fun state given => Interpreter.step state (Given.word given)) (Interpreter.reply data)
        state givens =
      block state.memory addr n.value.toNat := by
  have split : givens.map Given.word =
      (Call.addressWords addr ++ [0x0010#16 ++ n.value.setWidth 16]) ++ [0x8014#16 ++ 0#16] := by
    rw [words, Call.words, List.append_assoc]
    rfl
  obtain ⟨front, back, rfl, frontWords, backWords⟩ := List.map_eq_append_iff.mp split
  obtain ⟨given, rfl, word⟩ := List.map_eq_singleton_iff.mp backWords
  have silent : ∀ given ∈ front,
      (kind given.word).1 = false ∧ (kind given.word).2 ≠ .dataFifo := by
    intro given member
    have asked : kind given.word ∈
        (Call.addressWords addr ++ [0x0010#16 ++ n.value.setWidth 16]).map kind :=
      List.mem_map_of_mem (frontWords ▸ List.mem_map_of_mem member)
    rw [List.map_append, map_kind_addressWords, List.map_singleton, kind_word] at asked
    generalize kind given.word = found at asked
    revert found
    decide
  have asked : readsMemory given.word = true := by
    rw [word, readsMemory, readNotWrite_word, addressI_word]
    rfl
  have count : (n.value.setWidth 16).toNat = n.value.toNat := by
    rw [BitVec.toNat_setWidth]
    exact Nat.mod_eq_of_lt (Nat.lt_succ_of_le n.small)
  rw [log_append, log_eq_nil (fun asked => asked.1 = false ∧ asked.2 ≠ .dataFifo)
    (fun state given quiet => reply_of_write data state quiet.1 quiet.2) state silent,
    run_word, frontWords, run_append, run_addressWords, run_cons, run_nil,
    step_count, log_cons, log_nil, List.nil_append, List.append_nil,
    Interpreter.reply_readsMemory data _ given asked, count]

/-- A call is answered as the device answers it. -/
theorem log_reply_words (call : Call) (words : givens.map Given.word = call.words) :
    log (fun state given => Interpreter.step state (Given.word given)) (Interpreter.reply data)
        state givens =
      ((deviceOf state).reply (statusOf givens) call).map outputWord := by
  cases call with
  | writeRegister | sendPulse => exact log_reply_of_write data state words (by simp [Call.kinds])
  | writeMemory => exact log_reply_of_write data state words (by simp [Call.kinds])
  | readRegister i =>
    obtain ⟨given, rfl, selected, answer⟩ := log_reply_register data state words rfl (by simp)
    rw [answer, Interpreter.readValue, selected]
    rfl
  | readStatus i =>
    obtain ⟨given, rfl, selected, answer⟩ := log_reply_register data state words rfl (by simp)
    rw [answer, Interpreter.readValue, selected]
    rfl
  | readMemory addr n =>
    rw [log_reply_readMemory data state words, block, Device.reply, List.map_map]
    rfl

/-- The calls are answered as the device answers them. -/
theorem log_reply_calls (calls : List Call)
    (words : givens.map Given.word = calls.flatMap Call.words) :
    log (fun state given => Interpreter.step state (Given.word given)) (Interpreter.reply data)
        state givens =
      ((deviceOf state).replies calls (statuses calls givens)).flatten.map outputWord := by
  induction calls generalizing state givens with
  | nil =>
    rw [List.map_eq_nil_iff.mp words]
    rfl
  | cons call rest inductionHypothesis =>
    obtain ⟨front, back, rfl, frontWords, backWords⟩ := List.map_eq_append_iff.mp words
    have length : front.length = call.words.length := by rw [← frontWords, List.length_map]
    have nonempty : front ≠ [] := fun empty =>
      words_ne_nil call (by rw [← frontWords, empty, List.map_nil])
    rw [log_append, log_reply_words data state call frontWords, run_word, frontWords,
      inductionHypothesis _ backWords, run_words, statuses, ← length, List.drop_left,
      statusOf_append nonempty, ← List.map_append]
    rfl

/-- The pulses that a call sends: its mask for three clocks. -/
def Call.pulses : Call → List (BitVec 16)
  | .sendPulse mask => samples 3 (mask.setWidth 16)
  | _ => []

theorem pulses_eq_nil {given : Given} (other : kind given.word ≠ (false, .pulseReg)) :
    state.pulses given = [] :=
  if_neg fun write => other (Prod.ext write.1 write.2)

theorem log_pulses_words (call : Call) (words : givens.map Given.word = call.words) :
    log (fun state given => Interpreter.step state (Given.word given)) Interpreter.pulses
      state givens = call.pulses := by
  have kinds : ∀ given ∈ givens, kind given.word ∈ call.kinds := fun given member =>
    kind_mem_kinds (words ▸ List.mem_map_of_mem member)
  cases call with
  | sendPulse mask =>
    obtain ⟨given, rfl, word⟩ := List.map_eq_singleton_iff.mp words
    rw [log_cons, log_nil, List.append_nil, Interpreter.pulses, word, readNotWrite_word,
      addressI_word, dataOf_word]
    rfl
  | _ =>
    refine log_eq_nil (fun asked => asked ∈ Call.kinds _)
      (fun state given asked => pulses_eq_nil state fun pulse => ?_) state kinds
    rw [pulse] at asked
    simp [Call.kinds] at asked

/-- What the words of every call put out, the words of a sequence of calls put out in turn. -/
theorem log_calls {Event : Type*} {observe : Interpreter → Given → List Event}
    {event : Call → List Event}
    (one : ∀ (call : Call) (state : Interpreter) (givens : List Given),
      givens.map Given.word = call.words →
        log (fun state given => Interpreter.step state (Given.word given)) observe state givens =
          event call)
    (calls : List Call) (words : givens.map Given.word = calls.flatMap Call.words) :
    log (fun state given => Interpreter.step state (Given.word given)) observe state givens =
      calls.flatMap event := by
  induction calls generalizing state givens with
  | nil =>
    rw [List.map_eq_nil_iff.mp words]
    rfl
  | cons call rest inductionHypothesis =>
    obtain ⟨front, back, rfl, frontWords, backWords⟩ := List.map_eq_append_iff.mp words
    rw [log_append, one call state front frontWords, inductionHypothesis _ backWords,
      List.flatMap_cons]

/-- The pulses are those of the calls. -/
theorem log_pulses_calls (calls : List Call)
    (words : givens.map Given.word = calls.flatMap Call.words) :
    log (fun state given => Interpreter.step state (Given.word given)) Interpreter.pulses
      state givens = calls.flatMap Call.pulses :=
  log_calls state (fun call state _ words => log_pulses_words state call words) calls words

/-- Values with the addresses they are stored at, from an address on. -/
def storesFrom (addr : BitVec 32) : List (BitVec 32) → List (BitVec 32 × BitVec 32)
  | [] => []
  | val :: rest => (addr, val) :: storesFrom (addr + 1) rest

/-- What a call stores in the memory. -/
def Call.stores : Call → List (BitVec 32 × BitVec 32)
  | .writeMemory addr aval more => storesFrom addr (aval :: more)
  | _ => []

theorem stores_eq_nil {given : Given} (other : kind given.word ≠ (false, .memHigh)) :
    state.stores given = [] :=
  if_neg fun write => other (Prod.ext write.1 write.2)

/-- The words of a value store it at the address register. -/
theorem log_stores_value {val : BitVec 32} (words : givens.map Given.word = Call.storeWords val) :
    log (fun state given => Interpreter.step state (Given.word given)) Interpreter.stores
      state givens = [(state.address, val)] := by
  obtain ⟨low, others, rfl, lowWord, highWords⟩ := List.map_eq_cons_iff.mp words
  obtain ⟨high, rfl, highWord⟩ := List.map_eq_singleton_iff.mp highWords
  have silent : state.stores low = [] := by
    refine stores_eq_nil state ?_
    rw [lowWord, kind_word]
    decide
  have stores (state : Interpreter) :
      state.stores high = [(state.address, (val >>> 16).setWidth 16 ++ state.low)] := by
    rw [Interpreter.stores, highWord, readNotWrite_word, addressI_word, dataOf_word]
    rfl
  rw [log_cons, log_cons, log_nil, silent, stores, lowWord, step_memLow, append_halves]
  rfl

theorem log_stores_values {values : List (BitVec 32)}
    (words : givens.map Given.word = values.flatMap Call.storeWords) :
    log (fun state given => Interpreter.step state (Given.word given)) Interpreter.stores
      state givens = storesFrom state.address values := by
  induction values generalizing state givens with
  | nil =>
    rw [List.map_eq_nil_iff.mp words]
    rfl
  | cons val rest inductionHypothesis =>
    obtain ⟨front, back, rfl, frontWords, backWords⟩ := List.map_eq_append_iff.mp words
    rw [log_append, log_stores_value state frontWords, inductionHypothesis _ backWords, run_word,
      frontWords, run_storeWords]
    rfl

theorem log_stores_words (call : Call) (words : givens.map Given.word = call.words) :
    log (fun state given => Interpreter.step state (Given.word given)) Interpreter.stores
      state givens = call.stores := by
  have kinds : ∀ given ∈ givens, kind given.word ∈ call.kinds := fun given member =>
    kind_mem_kinds (words ▸ List.mem_map_of_mem member)
  cases call with
  | writeMemory addr aval more =>
    obtain ⟨front, back, rfl, frontWords, backWords⟩ := List.map_eq_append_iff.mp words
    have silent : ∀ given ∈ front, kind given.word ∈ [(false, .addrLow), (false, .addrHigh)] := by
      intro given member
      rw [← map_kind_addressWords addr, ← frontWords, List.map_map]
      exact List.mem_map_of_mem member
    rw [log_append, log_stores_values _ backWords, run_word, frontWords, run_addressWords,
      log_eq_nil (fun asked => asked ∈ [(false, .addrLow), (false, .addrHigh)])
        (fun state given asked => stores_eq_nil state fun store => ?_) state silent,
      List.nil_append, Call.stores]
    rw [store] at asked
    simp at asked
  | _ =>
    refine log_eq_nil (fun asked => asked ∈ Call.kinds _)
      (fun state given asked => stores_eq_nil state fun store => ?_) state kinds
    rw [store] at asked
    simp [Call.kinds] at asked

/-- The words stored in the memory are those of the calls. -/
theorem log_stores_calls (calls : List Call)
    (words : givens.map Given.word = calls.flatMap Call.words) :
    log (fun state given => Interpreter.step state (Given.word given)) Interpreter.stores
      state givens = calls.flatMap Call.stores :=
  log_calls state (fun call state _ words => log_stores_words state call words) calls words

end Calls

/-! ### What the words of the calls never do -/

/-- The words of the calls do to the device what the calls do. -/
theorem run_calls (state : Interpreter) (calls : List Call) :
    deviceOf (run Interpreter.step state (calls.flatMap Call.words)) =
      (deviceOf state).run calls := by
  induction calls generalizing state with
  | nil => rfl
  | cons call rest inductionHypothesis =>
    rw [List.flatMap_cons, run_append, inductionHypothesis, run_words]
    rfl

theorem moved_calls (state : Interpreter) (calls : List Call) :
    (run Interpreter.step state (calls.flatMap Call.words)).moved = state.moved := by
  refine moved_run state fun word member asked => ?_
  obtain ⟨call, _, member⟩ := List.mem_flatMap.mp member
  exact notDataFifo call (asked ▸ kind_mem_kinds member)

theorem along_of_other {words : List (BitVec 32)} (state : Interpreter)
    (other : ∀ word ∈ words, kind word ≠ (true, .memHigh)) :
    Along Interpreter.step (fun state word => ¬state.ReadsNothing word) state words := by
  refine along_of_forall fun state word member nothing => other word member ?_
  obtain ⟨read, memory⟩ := Bool.and_eq_true_iff.mp nothing.1
  exact Prod.ext read (eq_of_beq memory)

theorem along_words (state : Interpreter) (call : Call) :
    Along Interpreter.step (fun state word => ¬state.ReadsNothing word) state call.words := by
  cases call with
  | readMemory addr n =>
    have count : n.value.setWidth 16 ≠ 0#16 := fun zero => by
      have value := congrArg BitVec.toNat zero
      rw [BitVec.toNat_setWidth, Nat.mod_eq_of_lt (Nat.lt_succ_of_le n.small)] at value
      exact absurd value (Nat.pos_iff_ne_zero.mp n.positive)
    refine (along_append _ _ state _ _).mpr ⟨along_of_other state fun word member asked => ?_, ?_⟩
    · have found := map_kind_addressWords addr ▸ List.mem_map_of_mem (f := kind) member
      simp [asked] at found
    · rw [run_addressWords]
      refine ⟨fun nothing => ?_, fun nothing => count ?_, trivial⟩
      · have read := (Bool.and_eq_true_iff.mp nothing.1).1
        rw [readNotWrite_word] at read
        cases read
      · have zero := nothing.2
        rwa [step_count] at zero
  | _ =>
    refine along_of_other state fun word member asked => ?_
    have found := asked ▸ kind_mem_kinds member
    simp [Call.kinds] at found

/-- No call reads a block of no words. -/
theorem along_calls (state : Interpreter) (calls : List Call) :
    Along Interpreter.step (fun state word => ¬state.ReadsNothing word) state
      (calls.flatMap Call.words) := by
  induction calls generalizing state with
  | nil => trivial
  | cons call rest inductionHypothesis =>
    exact (along_append _ _ state _ _).mpr ⟨along_words state call, inductionHypothesis _⟩

/-! ### The calls under every schedule -/

/-- After reset, the registers are clear. -/
def Device.start (memory : BitVec 32 → BitVec 32) : Device := ⟨fun _ => 0, memory⟩

section Schedule

variable (host : Endian) (calls : List Call) (data : Nat → BitVec 32)
  (memory : BitVec 32 → BitVec 32) (ticks : Nat → Tick) (n : Nat)

/-- The answers to the calls, with the status inputs at the clocks that interpret them. -/
def answers : List (List (BitVec 32)) :=
  (Device.start memory).replies calls
    (statuses calls (System.given (callWords host calls) data memory ticks n))

/-- The masks on `PULSE_REG` before edge `n`. -/
def pulseSamples : List (BitVec 16) :=
  log (System.clock (.ofList (callWords host calls) data)) System.pulse (.powerOn memory)
    (upTo ticks n)

/-- Before edge `n` the calls have had the effect they name, and no other. -/
structure Performed : Prop where
  config : ∀ i : Fin 32,
    part 16 (System.before (callWords host calls) data memory ticks n).control.sConfigReg i =
      ((Device.start memory).run calls).config i
  stored : (System.before (callWords host calls) data memory ticks n).memory =
    ((Device.start memory).run calls).memory
  output : System.output (callWords host calls) data memory ticks n =
    (answers host calls data memory ticks n).flatten.map outputWord
  pulses : pulseSamples host calls data memory ticks n = calls.flatMap Call.pulses
  counts : (answers host calls data memory ticks n).map List.length = calls.map Call.answers
  readBack : ∀ (earlier later last : List Call) (addr aval : BitVec 32) (more : List (BitVec 32))
    (source : BitVec 32) (count : Count),
    calls = earlier ++ .writeMemory addr aval more :: (later ++ .readMemory source count :: last) →
    ∀ (i j : Nat) (inside : i < (aval :: more).length), (aval :: more).length ≤ i + 2 ^ 32 →
      j < count.value.toNat → source + BitVec.ofNat 32 j = addr + BitVec.ofNat 32 i →
      (∀ call ∈ later, ¬call.Writes (source + BitVec.ofNat 32 j)) →
      ((answers host calls data memory ticks n)[earlier.length + later.length + 1]?).bind
        (fun words => words[j]?) = some (aval :: more)[i]

end Schedule

theorem length_statuses (calls : List Call) (givens : List Given) :
    (statuses calls givens).length = calls.length := by
  induction calls generalizing givens with
  | nil => rfl
  | cons call rest inductionHypothesis =>
    rw [statuses, List.length_cons, List.length_cons, inductionHypothesis]

section Run

variable {traffic : Traffic} {memory : BitVec 32 → BitVec 32} {ticks : List Tick}
  (regular : Along (System.clock traffic) (fun system tick => system.Regular traffic tick)
    (.powerOn memory) ticks)

include regular

theorem pulsing_run : (run (System.clock traffic) (.powerOn memory) ticks).control.Pulsing :=
  ((System.pulseRefinement traffic).run_holds
    (show (System.pulseRefinement traffic).holds (.powerOn memory) from
      ⟨.powerOn memory, .powerOn⟩) regular).2

/-- The samples of `PULSE_REG`, and those still to come, are the pulses of the words popped. -/
theorem log_pulses :
    log (System.clock traffic) System.pulse (.powerOn memory) ticks ++
        (run (System.clock traffic) (.powerOn memory) ticks).pulsesOwed =
      log (fun state given => Interpreter.step state (Given.word given)) Interpreter.pulses
        (System.powerOn memory).meaning
        (log (System.clock traffic) (System.received traffic) (.powerOn memory) ticks) :=
  (System.pulseRefinement traffic).log_replies
    (show (System.pulseRefinement traffic).holds (.powerOn memory) from
      ⟨.powerOn memory, .powerOn⟩) regular

end Run

/-- In the wait state a pulse is over at the next edge. -/
theorem pulsesOwed_of_waiting {system : System} (pulsing : system.control.Pulsing)
    (traffic : Traffic) (tick : Tick) (waiting : system.control.cmdState = .waitCmd) :
    (system.clock traffic tick).pulsesOwed = [] := by
  have ended : system.control.left ≤ 1 := by
    rw [ControlInterface.left, waiting]
    split <;> simp
  have level := (System.pulsed pulsing traffic tick).level
  rw [System.pulseWrite_of_other traffic tick (by simp [waiting]), if_pos ended] at level
  exact if_pos level

/-- Every word of the calls is interpreted before edge `n`. -/
structure Settled (host : Endian) (calls : List Call) (data : Nat → BitVec 32)
    (memory : BitVec 32 → BitVec 32) (ticks : Nat → Tick) (n : Nat) : Prop where
  regular : Along (System.clock (.ofList (callWords host calls) data))
    (fun system tick => system.Regular (.ofList (callWords host calls) data) tick)
    (.powerOn memory) (upTo ticks n)
  waiting : (System.before (callWords host calls) data memory ticks n).control.cmdState = .waitCmd
  interpreted : System.Interpreted (callWords host calls) data memory ticks n

section Settled

variable {host : Endian} {calls : List Call} {memory : BitVec 32 → BitVec 32} {ticks : Nat → Tick}

/-- A schedule that delivers the bytes of the calls settles them. -/
theorem exists_settled (data : Nat → BitVec 32) (memory : BitVec 32 → BitVec 32)
    (serves : Serves ticks (callWords host calls).length 0) :
    ∃ n, ∀ m, n ≤ m → Settled host calls data memory ticks m := by
  have words := callWords_eq host calls
  have nonzero : Along Interpreter.step (fun state word => ¬state.ReadsNothing word)
      (Interpreter.start memory) (callWords host calls) := by
    rw [words]
    exact along_calls _ calls
  have moved : (Interpreter.interpret memory (callWords host calls)).moved = 0 := by
    rw [words]
    exact moved_calls _ calls
  have serves : Serves ticks (callWords host calls).length
      (Interpreter.interpret memory (callWords host calls)).moved := by rwa [moved]
  obtain ⟨n, consumed⟩ := System.exists_consumed data serves nonzero
  exact ⟨n, fun m later => ⟨System.regular_before data serves nonzero m,
    (consumed m later).waiting,
    System.interpreted_of_consumed data serves nonzero (consumed m later)⟩⟩

variable {data : Nat → BitVec 32} {n : Nat}

theorem Settled.given (settled : Settled host calls data memory ticks n) :
    (System.given (callWords host calls) data memory ticks n).map Given.word =
      calls.flatMap Call.words :=
  settled.interpreted.words.trans (callWords_eq host calls)

/-- The device is where the calls lead. -/
theorem interpret_callWords (host : Endian) (calls : List Call) (memory : BitVec 32 → BitVec 32) :
    deviceOf (Interpreter.interpret memory (callWords host calls)) =
      (Device.start memory).run calls := by
  rw [callWords_eq]
  exact run_calls (.start memory) calls

theorem Settled.config (settled : Settled host calls data memory ticks n) (i : Fin 32) :
    part 16 (System.before (callWords host calls) data memory ticks n).control.sConfigReg i =
      ((Device.start memory).run calls).config i := by
  rw [← interpret_callWords host]
  exact settled.interpreted.config i

/-- The words stored in the memory are those of the calls. -/
theorem Settled.stores (settled : Settled host calls data memory ticks n) :
    log (System.clock (.ofList (callWords host calls) data)) System.store (.powerOn memory)
      (upTo ticks n) = calls.flatMap Call.stores := by
  have coherent : (System.before (callWords host calls) data memory ticks n).Coherent :=
    (System.storeRefinement _).run_holds
      (show (System.storeRefinement _).holds (.powerOn memory) from .powerOn memory)
      settled.regular
  have nothing : (System.before (callWords host calls) data memory ticks n).store .quiet = [] := by
    rw [System.store, coherent.control.writing, settled.waiting]
    rfl
  have whole := (System.storeRefinement (.ofList (callWords host calls) data)).log_replies
    (show (System.storeRefinement _).holds (.powerOn memory) from .powerOn memory) settled.regular
  refine (List.append_nil _).symm.trans ((congrArg _ nothing.symm).trans (whole.trans ?_))
  exact log_stores_calls _ calls settled.given

end Settled

/-- Under every schedule that delivers the bytes of the calls, and with room in the output FIFO,
the calls have at last the effect they name: on the configuration registers, the memory, the words
written to the output FIFO and the pulses. Every read call is answered with as many words as it
asks for, and a memory word is read back as it was last written. -/
theorem calls_performed (host : Endian) (calls : List Call) (data : Nat → BitVec 32)
    (memory : BitVec 32 → BitVec 32) (ticks : Nat → Tick)
    (serves : Serves ticks (callWords host calls).length 0) :
    ∃ n, ∀ m, n ≤ m → Performed host calls data memory ticks m := by
  obtain ⟨n, settled⟩ := exists_settled data memory serves
  refine ⟨n + 1, fun m later => ?_⟩
  obtain ⟨m, rfl⟩ : ∃ m', m = m' + 1 := Nat.exists_eq_add_one.mpr (Nat.zero_lt_of_lt later)
  have before := settled m (Nat.le_of_succ_le_succ later)
  have after := settled (m + 1) (Nat.le_of_succ_le later)
  have pulsing := pulsing_run before.regular
  have pulsed := log_pulses after.regular
  have ended : (run (System.clock (.ofList (callWords host calls) data)) (.powerOn memory)
      (upTo ticks (m + 1))).pulsesOwed = [] := by
    rw [upTo_succ, run_concat]
    exact pulsesOwed_of_waiting pulsing _ _ before.waiting
  refine ⟨after.config, ?_, ?_, ?_, ?_, ?_⟩
  · rw [← interpret_callWords host]
    exact after.interpreted.memory
  · rw [after.interpreted.answers]
    exact log_reply_calls data (.start memory) calls after.given
  · refine (List.append_nil _).symm.trans ((congrArg _ ended.symm).trans (pulsed.trans ?_))
    exact log_pulses_calls _ calls after.given
  · exact Device.map_length_replies _ (length_statuses calls _)
  · rintro earlier later last addr aval more source count rfl i j inside newest asked same kept
    refine Device.readBack _ earlier later last addr aval more source count ?_ inside newest asked
      same kept
    rw [length_statuses, List.length_append, List.length_cons, List.length_append, List.length_cons]
    omega

/-- Two words are written at address 5, a pulse is sent, and the words are read back. -/
def writeAndRead : List Call :=
  [.writeMemory 5 7 [8], .sendPulse 2, .readMemory 5 ⟨2, by decide, by decide⟩]

theorem calls_performed_sample :
    ∃ n, System.output (callWords .little writeAndRead) (fun _ => 0) 0 (System.atOnce 11 0) n =
        [outputWord 7, outputWord 8] ∧
      pulseSamples .little writeAndRead (fun _ => 0) 0 (System.atOnce 11 0) n = [2, 2, 2] := by
  have length : (callWords .little writeAndRead).length = 11 := by decide
  obtain ⟨n, performed⟩ := calls_performed .little writeAndRead (fun _ => 0) 0
    (System.atOnce 11 0) (length.symm ▸ System.atOnce_serves 11 0)
  exact ⟨n, (performed n le_rfl).output.trans rfl, (performed n le_rfl).pulses⟩

end K71GbE.Host
