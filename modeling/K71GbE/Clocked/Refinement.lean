/-
This file is about machines that carry out commands over several clock edges.

The commands have a meaning of their own: a sequential specification that takes
one command at a time and replies at once. The machine refines it when a mapping
of its state, which counts what is in progress as done, takes a step of the
specification exactly at the edges where the machine takes a command, and when
what the machine emits at an edge and still owes after it is what it owed before
and the reply to the command it took.
-/

import K71GbE.Clocked.Machine

namespace Clocked

variable {State Input Spec Command Output : Type*}

/-- A refinement mapping from a machine to a sequential specification, on the states where
`holds` and over the edges that `admits`. -/
structure Refinement (step : State → Input → State) (specStep : Spec → Command → Spec)
    (reply : Spec → Command → List Output) where
  holds : State → Prop
  admits : State → Input → Prop
  taken : State → Input → List Command
  emitted : State → Input → List Output
  meaning : State → Spec
  owed : State → List Output
  preserved : ∀ state input, holds state → admits state input → holds (step state input)
  commutes : ∀ state input, holds state → admits state input →
    meaning (step state input) = run specStep (meaning state) (taken state input)
  replies : ∀ state input, holds state → admits state input →
    emitted state input ++ owed (step state input) =
      owed state ++ log specStep reply (meaning state) (taken state input)

namespace Refinement

variable {step : State → Input → State} {specStep : Spec → Command → Spec}
  {reply : Spec → Command → List Output} {state : State} {inputs : List Input}

theorem run_holds (refinement : Refinement step specStep reply) (start : refinement.holds state)
    (along : Along step refinement.admits state inputs) :
    refinement.holds (run step state inputs) :=
  run_invariant refinement.holds refinement.preserved start along

/-- After any run the mapped state is where the commands taken lead. -/
theorem run_meaning (refinement : Refinement step specStep reply)
    (start : refinement.holds state) (along : Along step refinement.admits state inputs) :
    refinement.meaning (run step state inputs) =
      run specStep (refinement.meaning state) (log step refinement.taken state inputs) := by
  induction inputs generalizing state with
  | nil => rfl
  | cons input rest inductionHypothesis =>
    obtain ⟨admitted, later⟩ := along
    rw [run_cons, inductionHypothesis (refinement.preserved state input start admitted) later,
      refinement.commutes state input start admitted, log_cons, run_append]

/-- Over any run what was emitted and what is still owed are the replies to the commands
taken. -/
theorem log_replies (refinement : Refinement step specStep reply)
    (start : refinement.holds state) (along : Along step refinement.admits state inputs) :
    log step refinement.emitted state inputs ++ refinement.owed (run step state inputs) =
      refinement.owed state ++
        log specStep reply (refinement.meaning state) (log step refinement.taken state inputs) := by
  induction inputs generalizing state with
  | nil => rw [log_nil, log_nil, log_nil, run_nil, List.nil_append, List.append_nil]
  | cons input rest inductionHypothesis =>
    obtain ⟨admitted, later⟩ := along
    rw [log_cons, List.append_assoc, run_cons,
      inductionHypothesis (refinement.preserved state input start admitted) later,
      ← List.append_assoc, refinement.replies state input start admitted,
      refinement.commutes state input start admitted, log_cons, log_append, List.append_assoc]

/-- The refinement of a component, carried over to a machine around it. -/
def around {Whole Drive : Type*} {wholeStep : Whole → Drive → Whole}
    (refinement : Refinement step specStep reply) (part : Whole → State)
    (drive : Whole → Drive → Input)
    (commutes : ∀ whole driven,
      part (wholeStep whole driven) = step (part whole) (drive whole driven)) :
    Refinement wholeStep specStep reply where
  holds whole := refinement.holds (part whole)
  admits whole driven := refinement.admits (part whole) (drive whole driven)
  taken whole driven := refinement.taken (part whole) (drive whole driven)
  emitted whole driven := refinement.emitted (part whole) (drive whole driven)
  meaning whole := refinement.meaning (part whole)
  owed whole := refinement.owed (part whole)
  preserved whole driven holds admitted := by
    rw [commutes]
    exact refinement.preserved _ _ holds admitted
  commutes whole driven holds admitted := by
    rw [commutes]
    exact refinement.commutes _ _ holds admitted
  replies whole driven holds admitted := by
    rw [commutes]
    exact refinement.replies _ _ holds admitted

end Refinement

end Clocked
