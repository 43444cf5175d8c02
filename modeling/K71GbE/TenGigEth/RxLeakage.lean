/-
This file is about what earlier frames leave behind in the receive parser.

Two runs end with the same frame, delivered alike. When the parser waits for a
frame before it in both, every register of the command is loaded from this frame,
but for the source port of an ARP request: that one is left from a frame before.
-/

import K71GbE.TenGigEth.RxDelivery

namespace K71GbE.TenGigEth

open Clocked

/-- The words the parser meets, whether they are transferred or held back. -/
def met (inputs : List RxInput) : List (BitVec 64) :=
  (inputs.filter (·.tvalid)).map (·.tdata)

/-- The clocks of a frame: one without a beat, then those of its words up to the last one, with
clocks without a beat and words held back among them, those of its last word, and some after
it. -/
structure LastFrame where
  idle : RxInput
  front : List RxInput
  last : List RxInput
  quiet : List RxInput
  apart : idle.tvalid = false ∧ idle.tlast = false
  inside : ∀ input ∈ front, input.tlast = false
  enough : 7 ≤ (met front).length
  closing : ∀ input ∈ last, input.tvalid = true ∧ input.tlast = true
  after : ∀ input ∈ quiet, input.tvalid = false ∧ input.tlast = false

/-- The clocks in which the command machine looks at the registers: the second one after a clock
with `TLAST`, unless it does so in the clock between. -/
def looks : Bool → Bool → List RxInput → List RxInput
  | _, _, [] => []
  | now, last, input :: rest =>
    (if now then [input] else []) ++ looks (!now && last) input.tlast rest

namespace LastFrame

/-- What is pushed for the last frame. -/
def commands (tail : LastFrame) (config : Config) (rx : RxParser) : List (BitVec 128) :=
  log (RxParser.clock config) (RxParser.pushed config)
    (run (RxParser.clock config) rx (tail.idle :: tail.front)) (tail.last ++ tail.quiet)

/-- The clocks in which a command of the last frame would be pushed. -/
def strobes (tail : LastFrame) : List RxInput := looks false false (tail.last ++ tail.quiet)

end LastFrame

variable (config : Config)

/-! ### Up to the last word -/

/-- The parser takes the words it meets, and cares for nothing else. -/
theorem clock_met {rx : RxParser} (ready : Ready rx) {input : RxInput}
    (open' : input.tlast = false) :
    ((rx.clock config input).parserState, (rx.clock config input).fields) =
        run takeBeat (rx.parserState, rx.fields) ((met [input]).map (⟨·, false⟩)) ∧
      Ready (rx.clock config input) := by
  obtain ⟨tdata, tvalid, tlast, full⟩ := input
  obtain rfl : tlast = false := open'
  cases tvalid with
  | false =>
    have moved := @RxParser.clock_takeBeat config rx _ (orderly_idleClock config tdata)
    exact ⟨moved, ready_idleClock config tdata⟩
  | true =>
    have moved := RxParser.clock_takeBeat (orderly_word config ready tdata false)
    exact ⟨moved, ready_word config ready tdata⟩

theorem run_met {rx : RxParser} (ready : Ready rx) {front : List RxInput}
    (inside : ∀ input ∈ front, input.tlast = false) :
    ((run (RxParser.clock config) rx front).parserState,
        (run (RxParser.clock config) rx front).fields) =
      run takeBeat (rx.parserState, rx.fields) ((met front).map (⟨·, false⟩)) := by
  induction front generalizing rx with
  | nil => rfl
  | cons input rest inductionHypothesis =>
    obtain ⟨first, later⟩ := List.forall_mem_cons.mp inside
    obtain ⟨moved, ready⟩ := clock_met config ready first
    have split : met (input :: rest) = met [input] ++ met rest := by
      rw [met, met, met, ← List.map_append, ← List.filter_append]
      rfl
    rw [run_cons, inductionHypothesis ready later, moved, split, List.map_append, run_append]

theorem run_s6 (fields : Fields) (words : List (BitVec 64)) :
    run takeBeat (.s6, fields) (words.map (⟨·, false⟩)) = (.s6, fields) := by
  induction words with
  | nil => rfl
  | cons tdata rest inductionHypothesis => exact inductionHypothesis

/-! ### From the last word on -/

/-- The parser does not start a frame in this clock. -/
def Resting (rx : RxParser) (input : RxInput) : Prop :=
  rx.parserState = .s6 ∨ rx.parserState = .s0 ∧ (input.tvalid = true → rx.tvalidPrev = true)

theorem resting_fields {rx : RxParser} {input : RxInput} (resting : Resting rx input) :
    (rx.clock config input).fields = rx.fields := by
  have moved := congrArg Prod.snd (RxParser.clock_parserSm config rx input)
  refine moved.trans ?_
  rcases resting with past | ⟨waits, before⟩
  · rw [past]
    rfl
  · have noRise : (input.tvalid && !rx.tvalidPrev) = false := by
      cases valid : input.tvalid with
      | false => rfl
      | true => rw [before valid]; rfl
    rw [waits, noRise]
    rfl

/-- While no frame starts, the pushes are told by the clocks in which the command machine looks at
the registers. -/
theorem log_resting {rx : RxParser} {inputs : List RxInput}
    (resting : Along (RxParser.clock config) Resting rx inputs)
    (watching : rx.cmdState = .s0 ∨ rx.cmdState = .s1) :
    log (RxParser.clock config) (RxParser.pushed config) rx inputs =
      (looks (rx.cmdState = .s1) rx.tlastI inputs).flatMap fun input =>
        if input.cmdFifoFull then [] else (command config rx.fields).toList := by
  induction inputs generalizing rx with
  | nil => rfl
  | cons input rest inductionHypothesis =>
    obtain ⟨now, later⟩ := resting
    have next :
        (rx.clock config input).cmdState = .s0 ∨ (rx.clock config input).cmdState = .s1 := by
      rw [RxParser.clock_cmdState]
      split_ifs
      · exact .inr rfl
      · exact .inl rfl
    have strobe : decide ((rx.clock config input).cmdState = .s1) =
        (!decide (rx.cmdState = .s1) && rx.tlastI) := by
      rw [RxParser.clock_cmdState]
      rcases watching with waits | looking
      · cases rx.tlastI <;> simp [waits]
      · simp [looking]
    rw [log_cons, inductionHypothesis later next, RxParser.pushed_eq, resting_fields config now,
      strobe, RxParser.clock_tlastI, looks, List.flatMap_append]
    congr 1
    rcases watching with waits | looking
    · simp [waits]
    · cases full : input.cmdFifoFull <;> simp [looking, full]

theorem resting_last {rx : RxParser} {last : List RxInput}
    (closing : ∀ input ∈ last, input.tvalid = true ∧ input.tlast = true)
    (past : rx.parserState = .s6 ∨ rx.parserState = .s0 ∧ rx.tvalidPrev = true) :
    Along (RxParser.clock config) Resting rx last ∧
      ((run (RxParser.clock config) rx last).parserState = .s6 ∨
        (run (RxParser.clock config) rx last).parserState = .s0) := by
  induction last generalizing rx with
  | nil => exact ⟨trivial, past.imp id And.left⟩
  | cons input rest inductionHypothesis =>
    obtain ⟨⟨valid, lastWord⟩, later⟩ := List.forall_mem_cons.mp closing
    have next : (rx.clock config input).parserState = .s0 := by
      have moved := congrArg Prod.fst (RxParser.clock_parserSm config rx input)
      refine moved.trans ?_
      rcases past with state | ⟨state, before⟩
      · rw [state]
        exact if_pos lastWord
      · rw [state, before, Bool.not_true, Bool.and_false]
        rfl
    obtain ⟨along, ended⟩ := inductionHypothesis later (.inr ⟨next, valid⟩)
    exact ⟨⟨past.imp id (And.imp_right fun before _ => before), along⟩, ended⟩

theorem resting_quiet {rx : RxParser} {quiet : List RxInput}
    (after : ∀ input ∈ quiet, input.tvalid = false ∧ input.tlast = false)
    (past : rx.parserState = .s6 ∨ rx.parserState = .s0) :
    Along (RxParser.clock config) Resting rx quiet := by
  induction quiet generalizing rx with
  | nil => trivial
  | cons input rest inductionHypothesis =>
    obtain ⟨⟨idle, open'⟩, later⟩ := List.forall_mem_cons.mp after
    refine ⟨past.imp id fun state => ⟨state, fun valid => ?_⟩, inductionHypothesis later ?_⟩
    · rw [idle] at valid
      cases valid
    · have moved := congrArg Prod.fst (RxParser.clock_parserSm config rx input)
      rw [idle, Bool.false_and, parserSm_idle input idle open'] at moved
      exact past.imp moved.trans moved.trans

/-- Two clocks without `TLAST` leave nothing from earlier frames to look at. -/
theorem cmdState_inside {rx : RxParser} (low : rx.tlastI = false) {front : List RxInput}
    (nonempty : front ≠ []) (inside : ∀ input ∈ front, input.tlast = false) :
    (run (RxParser.clock config) rx front).cmdState = .s0 ∧
      (run (RxParser.clock config) rx front).tlastI = false := by
  induction front generalizing rx with
  | nil => exact absurd rfl nonempty
  | cons input rest inductionHypothesis =>
    obtain ⟨first, later⟩ := List.forall_mem_cons.mp inside
    cases rest with
    | nil =>
      rw [run_cons, run_nil, RxParser.clock_cmdState, RxParser.clock_tlastI, low]
      exact ⟨if_neg fun looks => Bool.false_ne_true looks.2, first⟩
    | cons next rest =>
      exact inductionHypothesis ((RxParser.clock_tlastI config rx input).trans first)
        (List.cons_ne_nil _ _) later

/-! ### The command of the last frame -/

namespace LastFrame

variable (tail : LastFrame)

/-- After the words up to the last one, the parser has the first six of them in its registers. -/
theorem run_front {rx : RxParser} (waits : rx.parserState = .s0) :
    ∃ b0 b1 b2 b3 b4 b5 rest, met tail.front = b0 :: b1 :: b2 :: b3 :: b4 :: b5 :: rest ∧
      (run (RxParser.clock config) rx (tail.idle :: tail.front)).parserState = .s6 ∧
      (run (RxParser.clock config) rx (tail.idle :: tail.front)).fields =
        sixWords rx.fields b0 b1 b2 b3 b4 b5 := by
  obtain ⟨idle, open'⟩ := tail.apart
  have moved := RxParser.clock_parserSm config rx tail.idle
  rw [idle, Bool.false_and, parserSm_idle tail.idle idle open', waits] at moved
  have ready : Ready (rx.clock config tail.idle) := ⟨open', fun _ => idle⟩
  have read := run_met config ready tail.inside
  have enough := tail.enough
  rw [moved] at read
  generalize met tail.front = words at read enough ⊢
  match words with
  | b0 :: b1 :: b2 :: b3 :: b4 :: b5 :: rest =>
    rw [show (b0 :: b1 :: b2 :: b3 :: b4 :: b5 :: rest).map (⟨·, false⟩ : _ → Beat) =
        [⟨b0, false⟩, ⟨b1, false⟩, ⟨b2, false⟩, ⟨b3, false⟩, ⟨b4, false⟩, ⟨b5, false⟩] ++
          rest.map (⟨·, false⟩) from rfl, run_append, run_sixWords, run_s6] at read
    exact ⟨b0, b1, b2, b3, b4, b5, rest, rfl, congrArg Prod.fst read, congrArg Prod.snd read⟩

/-- What is pushed for the last frame. -/
theorem commands_eq {rx : RxParser} (waits : rx.parserState = .s0) :
    ∃ b0 b1 b2 b3 b4 b5 rest, met tail.front = b0 :: b1 :: b2 :: b3 :: b4 :: b5 :: rest ∧
      tail.commands config rx = tail.strobes.flatMap fun input =>
        if input.cmdFifoFull then [] else
          (command config (sixWords rx.fields b0 b1 b2 b3 b4 b5)).toList := by
  obtain ⟨b0, b1, b2, b3, b4, b5, rest, words, past, fields⟩ := tail.run_front config waits
  have nonempty : tail.front ≠ [] := by
    intro empty
    rw [empty] at words
    cases words
  obtain ⟨waiting, low⟩ := @cmdState_inside config (rx.clock config tail.idle) tail.apart.2 _
    nonempty tail.inside
  have resting : Along (RxParser.clock config) Resting
      (run (RxParser.clock config) rx (tail.idle :: tail.front)) (tail.last ++ tail.quiet) := by
    obtain ⟨along, ended⟩ := resting_last config tail.closing (.inl past)
    rw [along_append]
    exact ⟨along, resting_quiet config tail.after ended⟩
  refine ⟨b0, b1, b2, b3, b4, b5, rest, words, ?_⟩
  rw [commands, log_resting config resting (.inl waiting), fields, strobes]
  rw [run_cons, waiting, low]
  rfl

end LastFrame

/-- The command of an ARP request carries the source port that was there before. -/
theorem command_arp (fields : Fields) {b0 b1 b2 b3 b4 b5 : BitVec 64}
    (arp : two b1 4 = pktTypeArp) :
    command config (sixWords fields b0 b1 b2 b3 b4 b5) =
      if two b4 6 ++ two b5 0 = config.srcIp ∧ two b2 4 = opcodeReq then
        some (two b0 6 ++ four b1 0 ++ four b3 4 ++ fields.srcPortReg ++ 0#32)
      else none := by
  rw [sixWords, if_pos arp, command, if_pos arp]

/-- Any other command carries nothing that was there before. -/
theorem command_udp (fields fields' : Fields) {b0 b1 b2 b3 b4 b5 : BitVec 64}
    (udp : two b1 4 ≠ pktTypeArp) :
    command config (sixWords fields b0 b1 b2 b3 b4 b5) =
      command config (sixWords fields' b0 b1 b2 b3 b4 b5) := by
  rw [sixWords, sixWords, if_neg udp, if_neg udp]

/-- The same words in the same clocks: either the words are the same, or there is no clock. -/
theorem flatMap_strobes {strobes : List RxInput} {cmd cmd' : BitVec 128} :
    (strobes.flatMap fun input => if input.cmdFifoFull then [] else [cmd]) =
        (strobes.flatMap fun input => if input.cmdFifoFull then [] else [cmd']) ↔
      cmd = cmd' ∨ ∀ input ∈ strobes, input.cmdFifoFull = true := by
  induction strobes with
  | nil => simp
  | cons input rest inductionHypothesis =>
    rw [List.flatMap_cons, List.flatMap_cons, List.forall_mem_cons]
    cases full : input.cmdFifoFull with
    | true => simpa [full] using inductionHypothesis
    | false =>
      simp only [Bool.false_eq_true, if_false, List.singleton_append, List.cons.injEq, false_and,
        or_false]
      exact ⟨And.left, fun same => ⟨same, by rw [same]⟩⟩

/-- From two states in which the parser waits for a frame, the same command is pushed for the last
frame, unless it is an ARP request and another source port was left in the two: then only if the
FIFO is full whenever the command is to be pushed. -/
theorem LastFrame.commands_eq_iff (tail : LastFrame) {rx rx' : RxParser}
    (waits : rx.parserState = .s0) (waits' : rx'.parserState = .s0) :
    tail.commands config rx = tail.commands config rx' ↔
      (ArpRequest config (met tail.front) →
        rx.fields.srcPortReg = rx'.fields.srcPortReg ∨
          ∀ input ∈ tail.strobes, input.cmdFifoFull = true) := by
  obtain ⟨b0, b1, b2, b3, b4, b5, rest, words, pushes⟩ := tail.commands_eq config waits
  obtain ⟨_, _, _, _, _, _, _, words', pushes'⟩ := tail.commands_eq config waits'
  rw [words] at words'
  simp only [List.cons.injEq] at words'
  obtain ⟨rfl, rfl, rfl, rfl, rfl, rfl, rfl⟩ := words'
  rw [pushes, pushes', words, arpRequest_words]
  by_cases arp : two b1 4 = pktTypeArp
  · rw [command_arp config _ arp, command_arp config _ arp]
    by_cases request : two b4 6 ++ two b5 0 = config.srcIp ∧ two b2 4 = opcodeReq
    · rw [if_pos request, if_pos request]
      simp only [Option.toList_some]
      rw [flatMap_strobes]
      have asked : two b1 4 = pktTypeArp ∧ two b2 4 = opcodeReq ∧
        two b4 6 ++ two b5 0 = config.srcIp := ⟨arp, request.2, request.1⟩
      refine ⟨fun same _ => same.imp_left fun same => ?_, fun all => (all asked).imp_left ?_⟩
      · have ports := congrArg (BitVec.extractLsb' 32 16) same
        rwa [(extract_command _ _ _ _).2.2.1, (extract_command _ _ _ _).2.2.1] at ports
      · intro ports
        rw [ports]
    · rw [if_neg request, if_neg request]
      exact ⟨fun _ met => absurd ⟨met.2.2, met.2.1⟩ request, fun _ => rfl⟩
  · rw [command_udp config _ _ arp]
    exact ⟨fun _ met => absurd met.1 arp, fun _ => rfl⟩

/-- After frames of at least eight words, with a clock without a beat before each, the parser
waits for a frame. -/
theorem waits_of_delivered (start : RxParser) (deliveries : List Delivery)
    {trailing : List (BitVec 64)} (ends : trailing ≠ []) :
    (run (RxParser.clock config) start.reset (delivered deliveries trailing)).parserState =
      .s0 := by
  have orderly : Along (RxParser.clock config) (Orderly config) start.reset
    (delivered deliveries trailing) := along_delivered config deliveries ends
  have meaning := (RxParser.beatRefinement config).run_meaning (.inl rfl) orderly
  refine (congrArg Prod.fst meaning).trans ?_
  show (run takeBeat (.s0, .zero) (log (RxParser.clock config)
    (fun _ input => input.transferred) start.reset _)).1 = _
  rw [RxParser.log_input, flatMap_delivered]
  exact run_frames .zero (enough_frames deliveries)

/-- So after any two sequences of such frames the command of the last one tells nothing of them but
the source port that was left. -/
theorem commands_delivered_iff (start start' : RxParser) (deliveries deliveries' : List Delivery)
    {trailing trailing' : List (BitVec 64)} (ends : trailing ≠ []) (ends' : trailing' ≠ [])
    (tail : LastFrame) :
    let rx := run (RxParser.clock config) start.reset (delivered deliveries trailing)
    let rx' := run (RxParser.clock config) start'.reset (delivered deliveries' trailing')
    tail.commands config rx = tail.commands config rx' ↔
      (ArpRequest config (met tail.front) →
        rx.fields.srcPortReg = rx'.fields.srcPortReg ∨
          ∀ input ∈ tail.strobes, input.cmdFifoFull = true) :=
  tail.commands_eq_iff config (waits_of_delivered config start deliveries ends)
    (waits_of_delivered config start' deliveries' ends')

/-- Where the parser waits for a frame before the last one in two runs, the same command is
pushed for it in both, unless it is an ARP request and another source port was left in the two:
then only if the FIFO is full whenever the command is to be pushed. -/
theorem same_command_iff (start start' : RxParser) (earlier earlier' : List RxInput)
    (tail : LastFrame)
    (waits : (run (RxParser.clock config) start.reset earlier).parserState = .s0)
    (waits' : (run (RxParser.clock config) start'.reset earlier').parserState = .s0) :
    tail.commands config (run (RxParser.clock config) start.reset earlier) =
        tail.commands config (run (RxParser.clock config) start'.reset earlier') ↔
      (ArpRequest config (met tail.front) →
        (run (RxParser.clock config) start.reset earlier).fields.srcPortReg =
            (run (RxParser.clock config) start'.reset earlier').fields.srcPortReg ∨
          ∀ input ∈ tail.strobes, input.cmdFifoFull = true) :=
  tail.commands_eq_iff config waits waits'

/-- The request, with a clock without a beat before it and two after it. -/
def lastRequest : LastFrame where
  idle := idleClock 0
  front := (request.take 7).map fun tdata => ⟨tdata, true, false, false⟩
  last := [⟨0, true, true, false⟩]
  quiet := [idleClock 0, idleClock 0]
  apart := ⟨rfl, rfl⟩
  inside := by decide
  enough := by decide
  closing := by decide
  after := by decide

/-- The same port was left twice by the datagram, once with the request behind it. -/
theorem same_command_iff_sample :
    lastRequest.commands station (run (RxParser.clock station) RxParser.idle.reset
        (delivered [spaced datagram (by decide)] [0])) =
      lastRequest.commands station (run (RxParser.clock station) RxParser.idle.reset
        (delivered [spaced datagram (by decide), spaced request (by decide)] [0])) :=
  (same_command_iff station RxParser.idle RxParser.idle _ _ lastRequest
    (waits_of_delivered station _ _ (by decide)) (waits_of_delivered station _ _ (by decide))).mpr
      fun _ => .inl (by decide +kernel)

/-- After nothing, after a datagram, and after a frame of three words that the parser is still
reading, the same request leaves different commands. -/
theorem requests_differ :
    let commands earlier := lastRequest.commands station
      (run (RxParser.clock station) RxParser.idle.reset earlier)
    commands [idleClock 0] = [0x0200000000020a000002000000000000] ∧
      commands (delivered [spaced datagram (by decide)] [0, 0]) =
        [0x0200000000020a000002123400000000] ∧
      commands (clocks [([0], 0), ([0], 0), ([0], 0)] ++ [idleClock 0, idleClock 0]) = [] := by
  decide +kernel

end K71GbE.TenGigEth
