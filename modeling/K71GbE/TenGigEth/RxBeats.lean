/-
This file shows that the parser works on the beats that are transferred, as long
as the stream keeps to what it relies on.

The registers then take a step for each beat, wherever the idle clocks are, and
what is pushed is what the registers amount to after each last beat. The parser
relies on an idle clock between frames, on `TLAST` being low without a beat, and on
beats not being held back while it still reads them.
-/

import K71GbE.Clocked.Refinement
import K71GbE.TenGigEth.RxParser

namespace K71GbE.TenGigEth

open Clocked

/-- A beat of the stream. -/
structure Beat where
  tdata : BitVec 64
  tlast : Bool
deriving DecidableEq, Repr

/-- The beat that is transferred at the rising edge of a clock. -/
def RxInput.transferred (input : RxInput) : List Beat :=
  if input.tvalid && input.tready then [⟨input.tdata, input.tlast⟩] else []

/-! ### The registers, beat by beat -/

/-- The parser takes a beat. -/
def takeBeat (parser : ParserState × Fields) (beat : Beat) : ParserState × Fields :=
  parserSm true ⟨beat.tdata, true, beat.tlast, false⟩ parser.1 parser.2

/-- After a last beat the registers are looked at. -/
def beatCommand (config : Config) (parser : ParserState × Fields) (beat : Beat) :
    List (BitVec 128) :=
  if beat.tlast then (command config (takeBeat parser beat).2).toList else []

/-- Without a beat and without `TLAST` nothing changes. -/
theorem parserSm_idle (input : RxInput) (idle : input.tvalid = false) (open' : input.tlast = false)
    (state : ParserState) (fields : Fields) :
    parserSm false input state fields = (state, fields) := by
  unfold parserSm
  cases state <;> simp only [idle, open', Bool.false_eq_true, if_false]

/-- A beat is taken, if in state `S0` it starts a frame. -/
theorem parserSm_beat {tstart : Bool} (input : RxInput) (beat : input.tvalid = true)
    {state : ParserState} (start : state = .s0 → tstart = true) (fields : Fields) :
    parserSm tstart input state fields = takeBeat (state, fields) ⟨input.tdata, input.tlast⟩ := by
  unfold takeBeat parserSm
  cases state with
  | s0 => simp only [start rfl, if_true]
  | _ => simp only [beat, if_true]

theorem takeBeat_ne_s0 {parser : ParserState × Fields} {tdata : BitVec 64} :
    (takeBeat parser ⟨tdata, false⟩).1 ≠ .s0 := by
  obtain ⟨state, fields⟩ := parser
  unfold takeBeat parserSm
  cases state <;> simp only [if_true, Bool.false_eq_true, if_false, ne_eq, reduceCtorEq,
    not_false_eq_true] <;> split_ifs <;> simp

/-! ### Orderly streams -/

/-- What the parser relies on in a clock. -/
structure Orderly (config : Config) (rx : RxParser) (input : RxInput) : Prop where
  gap : rx.tlastI = true ∨ rx.parserState = .s0 ∧ rx.tvalidPrev = true → input.tvalid = false
  last : input.tlast = true → input.tvalid = true
  held : input.tvalid = true → input.cmdFifoFull = true →
    rx.parserState = .s6 ∧ input.tlast = false
  room : rx.cmdState = .s1 → (command config rx.fields).isSome → input.cmdFifoFull = false

instance (config : Config) (rx : RxParser) (input : RxInput) :
    Decidable (Orderly config rx input) :=
  decidable_of_iff
    ((rx.tlastI = true ∨ rx.parserState = .s0 ∧ rx.tvalidPrev = true → input.tvalid = false) ∧
      (input.tlast = true → input.tvalid = true) ∧
      (input.tvalid = true → input.cmdFifoFull = true →
        rx.parserState = .s6 ∧ input.tlast = false) ∧
      (rx.cmdState = .s1 → (command config rx.fields).isSome → input.cmdFifoFull = false))
    ⟨fun ⟨gap, last, held, room⟩ => ⟨gap, last, held, room⟩,
      fun ⟨gap, last, held, room⟩ => ⟨gap, last, held, room⟩⟩

namespace RxParser

variable {config : Config} {rx : RxParser} {input : RxInput}

/-- The parser takes the beats that are transferred. -/
theorem clock_takeBeat (orderly : Orderly config rx input) :
    ((rx.clock config input).parserState, (rx.clock config input).fields) =
      run takeBeat (rx.parserState, rx.fields) input.transferred := by
  rw [clock_parserSm, RxInput.transferred, RxInput.tready]
  cases beat : input.tvalid with
  | false =>
    have open' : input.tlast = false := by
      cases last : input.tlast with
      | false => rfl
      | true => exact absurd (orderly.last last) (by rw [beat]; exact Bool.false_ne_true)
    exact parserSm_idle input beat open' rx.parserState rx.fields
  | true =>
    cases full : input.cmdFifoFull with
    | true =>
      obtain ⟨state, open'⟩ := orderly.held beat full
      rw [state]
      simp only [parserSm, open', Bool.false_eq_true, if_false, Bool.not_true, Bool.and_false,
        run_nil]
    | false =>
      refine parserSm_beat input beat (fun state => ?_) rx.fields
      cases before : rx.tvalidPrev with
      | false => rfl
      | true =>
        have idle := orderly.gap (.inr ⟨state, before⟩)
        rw [beat] at idle
        cases idle

/-- The command machine waits, or looks at the registers while no last beat was met. -/
def Watching (rx : RxParser) : Prop :=
  rx.cmdState = .s0 ∨ rx.cmdState = .s1 ∧ rx.tlastI = false

/-- The commands of last beats that are not pushed yet. -/
def pending (config : Config) (rx : RxParser) : List (BitVec 128) :=
  if rx.cmdState = .s1 ∨ rx.tlastI = true then (command config rx.fields).toList else []

theorem watching_clock (orderly : Orderly config rx input) :
    (rx.clock config input).Watching := by
  unfold Watching
  rw [clock_cmdState, clock_tlastI]
  split_ifs with met
  · have idle := orderly.gap (.inl met.2)
    refine .inr ⟨rfl, Bool.eq_false_of_not_eq_true fun last => ?_⟩
    exact Bool.false_ne_true (idle.symm.trans (orderly.last last))
  · exact .inl rfl

/-- A last beat is taken, and the registers after it amount to its command. -/
theorem log_transferred (orderly : Orderly config rx input) :
    log takeBeat (beatCommand config) (rx.parserState, rx.fields) input.transferred =
      if input.tlast then (command config (rx.clock config input).fields).toList else [] := by
  have moved := congrArg Prod.snd (clock_takeBeat orderly)
  rw [RxInput.transferred] at moved ⊢
  cases last : input.tlast with
  | false =>
    rw [if_neg Bool.false_ne_true]
    cases input.tvalid && input.tready <;> rfl
  | true =>
    have beat := orderly.last last
    have ready : input.tready = true := by
      cases full : input.cmdFifoFull with
      | false => rw [RxInput.tready, full, Bool.not_false]
      | true =>
        have open' := (orderly.held beat full).2
        rw [last] at open'
        cases open'
    simp only [beat, ready, last, Bool.and_self, if_true, run_cons, run_nil] at moved ⊢
    rw [log_cons, log_nil, List.append_nil, beatCommand, if_pos rfl, moved]

/-- What is pushed in a clock and pending after it is what was pending before and what the beat
amounts to. -/
theorem pushed_pending (watching : rx.Watching) (orderly : Orderly config rx input) :
    rx.pushed config input ++ (rx.clock config input).pending config =
      rx.pending config ++
        log takeBeat (beatCommand config) (rx.parserState, rx.fields) input.transferred := by
  rw [log_transferred orderly, pending, pending, pushed_eq, clock_cmdState, clock_tlastI]
  rcases watching with waits | ⟨looks, low⟩
  · cases before : rx.tlastI with
    | false => simp [waits]
    | true =>
      have idle := orderly.gap (.inl before)
      have open' : input.tlast = false := Bool.eq_false_of_not_eq_true fun last =>
        Bool.false_ne_true (idle.symm.trans (orderly.last last))
      have kept : (rx.clock config input).fields = rx.fields := by
        have moved := clock_takeBeat orderly
        rw [RxInput.transferred, idle, Bool.false_and, if_neg Bool.false_ne_true, run_nil] at moved
        exact congrArg Prod.snd moved
      simp [waits, open', kept]
  · have written : (if rx.cmdState = .s1 ∧ input.cmdFifoFull = false then
        (command config rx.fields).toList else []) = (command config rx.fields).toList := by
      have room := orderly.room looks
      cases value : command config rx.fields with
      | none => simp
      | some din =>
        rw [value] at room
        rw [if_pos ⟨looks, room rfl⟩]
    rw [written]
    simp [looks, low]

variable (config)

/-- The parser refines the registers that take one beat at a time. -/
def beatRefinement : Refinement (clock config) takeBeat (beatCommand config) where
  holds := Watching
  admits := Orderly config
  taken _ input := input.transferred
  emitted rx input := rx.pushed config input
  meaning rx := (rx.parserState, rx.fields)
  owed rx := rx.pending config
  preserved _ _ _ orderly := watching_clock orderly
  commutes _ _ _ orderly := clock_takeBeat orderly
  replies _ _ watching orderly := pushed_pending watching orderly

variable {config}

/-- With the registers cleared there is no command. -/
theorem pending_reset (rx : RxParser) : rx.reset.pending config = [] := by
  have noCommand : command config Fields.zero = none := rfl
  rw [pending]
  exact ite_eq_right_iff.mpr fun _ => congrArg Option.toList noCommand

/-- After two clocks without `TLAST` nothing is left to be pushed. -/
theorem pending_clock_clock (rx : RxParser) {input input' : RxInput} (first : input.tlast = false)
    (second : input'.tlast = false) :
    ((rx.clock config input).clock config input').pending config = [] := by
  rw [pending, clock_cmdState, clock_tlastI, clock_tlastI]
  simp [first, second]

theorem log_input (config : Config) (rx : RxParser) (inputs : List RxInput) :
    log (clock config) (fun _ input => input.transferred) rx inputs =
      inputs.flatMap RxInput.transferred := by
  induction inputs generalizing rx with
  | nil => rfl
  | cons input rest inductionHypothesis =>
    rw [log_cons, inductionHypothesis, List.flatMap_cons]

/-- On an orderly stream what is pushed, or still is to be, is told by the beats alone. -/
theorem log_pushed (rx : RxParser) {inputs : List RxInput}
    (orderly : Along (clock config) (Orderly config) rx.reset inputs) :
    log (clock config) (pushed config) rx.reset inputs ++
        (run (clock config) rx.reset inputs).pending config =
      log takeBeat (beatCommand config) (.s0, .zero) (inputs.flatMap RxInput.transferred) := by
  rw [← log_input config rx.reset]
  refine ((beatRefinement config).log_replies (.inl rfl) orderly).trans ?_
  show rx.reset.pending config ++ _ = _
  rw [pending_reset, List.nil_append]
  rfl

end RxParser

end K71GbE.TenGigEth
