/-
This file is the theory of synchronous machines that the models instantiate.

A machine is a step function: the state before a clock edge and the inputs
sampled at that edge give the state after it. A run folds the step over the
inputs of consecutive edges, and a log concatenates what an observer reads at
each edge. The rules below are the ones every later invariant is proved with:
what one step preserves, a run preserves, possibly only along the runs whose
steps all satisfy a condition.
-/

import Mathlib.Data.List.Induction
import Mathlib.Data.List.Infix

namespace Clocked

variable {State Input Event : Type*}

/-! ### Runs, logs and conditions along a run -/

/-- The state after the clock edges of `inputs`. -/
def run (step : State → Input → State) (state : State) (inputs : List Input) : State :=
  inputs.foldl step state

/-- What `observe` reads at the edges of a run, in order. -/
def log (step : State → Input → State) (observe : State → Input → List Event) :
    State → List Input → List Event
  | _, [] => []
  | state, input :: rest => observe state input ++ log step observe (step state input) rest

/-- Every step of the run satisfies `admits`, a condition on the state before the edge and
the inputs sampled at it. -/
def Along (step : State → Input → State) (admits : State → Input → Prop) :
    State → List Input → Prop
  | _, [] => True
  | state, input :: rest => admits state input ∧ Along step admits (step state input) rest

instance decidableAlong (step : State → Input → State) (admits : State → Input → Prop)
    [∀ state input, Decidable (admits state input)] :
    ∀ state inputs, Decidable (Along step admits state inputs)
  | _, [] => inferInstanceAs (Decidable True)
  | state, input :: rest =>
    have := decidableAlong step admits (step state input) rest
    inferInstanceAs (Decidable (admits state input ∧ Along step admits (step state input) rest))

/-- Every step of the run satisfies `admits`, a condition on the state before the edge, the inputs
sampled at it and those that are still to come. -/
def AlongRest (step : State → Input → State) (admits : State → Input → List Input → Prop) :
    State → List Input → Prop
  | _, [] => True
  | state, input :: rest => admits state input rest ∧ AlongRest step admits (step state input) rest

instance decidableAlongRest (step : State → Input → State)
    (admits : State → Input → List Input → Prop)
    [∀ state input rest, Decidable (admits state input rest)] :
    ∀ state inputs, Decidable (AlongRest step admits state inputs)
  | _, [] => inferInstanceAs (Decidable True)
  | state, input :: rest =>
    have := decidableAlongRest step admits (step state input) rest
    inferInstanceAs
      (Decidable (admits state input rest ∧ AlongRest step admits (step state input) rest))

section Equations

variable (step : State → Input → State) (observe : State → Input → List Event)
  (admits : State → Input → Prop) (state : State)

@[simp] theorem run_nil : run step state [] = state := rfl

@[simp] theorem run_cons (input : Input) (rest : List Input) :
    run step state (input :: rest) = run step (step state input) rest := rfl

theorem run_append (first second : List Input) :
    run step state (first ++ second) = run step (run step state first) second :=
  List.foldl_append

@[simp] theorem run_concat (inputs : List Input) (input : Input) :
    run step state (inputs ++ [input]) = step (run step state inputs) input := by
  rw [run_append, run_cons, run_nil]

@[simp] theorem log_nil : log step observe state [] = [] := rfl

@[simp] theorem log_cons (input : Input) (rest : List Input) :
    log step observe state (input :: rest) =
      observe state input ++ log step observe (step state input) rest := rfl

theorem log_append (first second : List Input) :
    log step observe state (first ++ second) =
      log step observe state first ++ log step observe (run step state first) second := by
  induction first generalizing state with
  | nil => rfl
  | cons input rest inductionHypothesis =>
    rw [List.cons_append, log_cons, log_cons, inductionHypothesis, List.append_assoc, run_cons]

@[simp] theorem log_concat (inputs : List Input) (input : Input) :
    log step observe state (inputs ++ [input]) =
      log step observe state inputs ++ observe (run step state inputs) input := by
  rw [log_append, log_cons, log_nil, List.append_nil]

theorem along_append (first second : List Input) :
    Along step admits state (first ++ second) ↔
      Along step admits state first ∧ Along step admits (run step state first) second := by
  induction first generalizing state with
  | nil => simp only [List.nil_append, Along, true_and, run_nil]
  | cons input rest inductionHypothesis =>
    rw [List.cons_append, Along, Along, inductionHypothesis, run_cons, and_assoc]

@[simp] theorem along_concat (inputs : List Input) (input : Input) :
    Along step admits state (inputs ++ [input]) ↔
      Along step admits state inputs ∧ admits (run step state inputs) input := by
  rw [along_append]
  simp only [Along, and_true]

end Equations

/-! ### Invariant rules -/

section Rules

variable {step : State → Input → State} {observe : State → Input → List Event}
  {admits : State → Input → Prop} {state : State} {inputs : List Input}

/-- What every admitted step preserves, an admitted run preserves. -/
theorem run_invariant (holds : State → Prop)
    (preserved : ∀ state input, holds state → admits state input → holds (step state input))
    (start : holds state) (along : Along step admits state inputs) :
    holds (run step state inputs) := by
  induction inputs generalizing state with
  | nil => exact start
  | cons input rest inductionHypothesis =>
    exact inductionHypothesis (preserved state input start along.1) along.2

/-- An invariant of the state and of everything logged so far. -/
theorem log_invariant (holds : State → List Event → Prop)
    (preserved : ∀ state input events, holds state events → admits state input →
      holds (step state input) (events ++ observe state input))
    {before : List Event} (start : holds state before) (along : Along step admits state inputs) :
    holds (run step state inputs) (before ++ log step observe state inputs) := by
  induction inputs generalizing state before with
  | nil => rwa [log_nil, List.append_nil]
  | cons input rest inductionHypothesis =>
    rw [log_cons, ← List.append_assoc]
    exact inductionHypothesis (preserved state input before start along.1) along.2

/-- A condition that holds of every step holds along every run. -/
theorem along_of_forall (always : ∀ state, ∀ input ∈ inputs, admits state input) :
    Along step admits state inputs := by
  induction inputs generalizing state with
  | nil => trivial
  | cons input rest inductionHypothesis =>
    exact ⟨always state input List.mem_cons_self,
      inductionHypothesis fun state other member =>
        always state other (List.mem_cons_of_mem _ member)⟩

/-- What every step preserves, every run preserves. -/
theorem run_always (holds : State → Prop)
    (preserved : ∀ state input, holds state → holds (step state input)) (start : holds state)
    (inputs : List Input) : holds (run step state inputs) :=
  run_invariant holds (fun state input kept _ => preserved state input kept) start
    (show Along step (fun _ _ => True) state inputs from along_of_forall fun _ _ _ => trivial)

/-- Along a run that keeps an invariant, a condition may be strengthened by it. -/
theorem along_of_invariant {stronger : State → Input → Prop} (holds : State → Prop)
    (preserved : ∀ state input, holds state → admits state input → holds (step state input))
    (implied : ∀ state input, holds state → admits state input → stronger state input)
    (start : holds state) (along : Along step admits state inputs) :
    Along step stronger state inputs := by
  induction inputs generalizing state with
  | nil => trivial
  | cons input rest inductionHypothesis =>
    exact ⟨implied state input start along.1,
      inductionHypothesis (preserved state input start along.1) along.2⟩

theorem Along.mono {weaker : State → Input → Prop} (along : Along step admits state inputs)
    (implied : ∀ state input, admits state input → weaker state input) :
    Along step weaker state inputs :=
  along_of_invariant (fun _ => True) (fun _ _ _ _ => trivial)
    (fun state input _ admitted => implied state input admitted) trivial along

theorem Along.and {other : State → Input → Prop} (first : Along step admits state inputs)
    (second : Along step other state inputs) :
    Along step (fun state input => admits state input ∧ other state input) state inputs := by
  induction inputs generalizing state with
  | nil => trivial
  | cons input rest inductionHypothesis =>
    exact ⟨⟨first.1, second.1⟩, inductionHypothesis first.2 second.2⟩

/-- Observers that read the same at every step of a run log the same. -/
theorem log_congr {other : State → Input → List Event}
    (along : Along step (fun state input => observe state input = other state input) state inputs) :
    log step observe state inputs = log step other state inputs := by
  induction inputs generalizing state with
  | nil => rfl
  | cons input rest inductionHypothesis =>
    rw [log_cons, log_cons, along.1, inductionHypothesis along.2]

/-- A run is admitted exactly when each of its steps is, at the state reached before it. -/
theorem along_iff_steps :
    Along step admits state inputs ↔
      ∀ seen input later, inputs = seen ++ input :: later →
        admits (run step state seen) input := by
  constructor
  · rintro along seen input later rfl
    exact ((along_append step admits state seen (input :: later)).mp along).2.1
  · intro steps
    induction inputs generalizing state with
    | nil => trivial
    | cons input rest inductionHypothesis =>
      refine ⟨steps [] input rest rfl, inductionHypothesis fun seen other later split => ?_⟩
      exact steps (input :: seen) other later (by rw [split, List.cons_append])

end Rules

/-! ### A component driven inside a larger machine -/

section Feed

variable {Whole Drive : Type*}

/-- The inputs a component receives during a run of the machine around it. -/
def feed (step : Whole → Input → Whole) (drive : Whole → Input → Drive) :
    Whole → List Input → List Drive
  | _, [] => []
  | whole, input :: rest => drive whole input :: feed step drive (step whole input) rest

variable {step : Whole → Input → Whole} {drive : Whole → Input → Drive}
  {part : Whole → State} {partStep : State → Drive → State}

theorem feed_append (whole : Whole) (first second : List Input) :
    feed step drive whole (first ++ second) =
      feed step drive whole first ++ feed step drive (run step whole first) second := by
  induction first generalizing whole with
  | nil => rfl
  | cons input rest inductionHypothesis =>
    rw [List.cons_append, feed, feed, inductionHypothesis, run_cons, List.cons_append]

/-- A condition on what is driven, along the run or on the whole feed. -/
theorem along_drive (admits : Drive → Prop) (whole : Whole) (inputs : List Input) :
    Along step (fun whole input => admits (drive whole input)) whole inputs ↔
      ∀ driven ∈ feed step drive whole inputs, admits driven := by
  induction inputs generalizing whole with
  | nil => simp only [Along, feed, List.not_mem_nil, false_implies, implies_true]
  | cons input rest inductionHypothesis =>
    rw [Along, feed, inductionHypothesis, List.forall_mem_cons]

/-- Where the feed splits, the inputs split. -/
theorem feed_eq_append_cons {whole : Whole} {inputs : List Input} {before after : List Drive}
    {middle : Drive} (split : feed step drive whole inputs = before ++ middle :: after) :
    ∃ first input last, inputs = first ++ input :: last ∧
      feed step drive whole first = before ∧ drive (run step whole first) input = middle ∧
      feed step drive (step (run step whole first) input) last = after := by
  induction before generalizing whole inputs with
  | nil =>
    cases inputs with
    | nil => cases split
    | cons input rest =>
      obtain ⟨met, tail⟩ := List.cons.inj split
      exact ⟨[], input, rest, rfl, rfl, met, tail⟩
  | cons head before inductionHypothesis =>
    cases inputs with
    | nil => cases split
    | cons input rest =>
      obtain ⟨met, tail⟩ := List.cons.inj split
      obtain ⟨first, middle, last, rfl, fed, driven, rest⟩ := inductionHypothesis tail
      exact ⟨input :: first, middle, last, rfl, by rw [feed, met, fed], driven, rest⟩

/-- The component of the state reached is the state the component reaches on its feed. -/
theorem run_feed (commutes : ∀ whole input,
      part (step whole input) = partStep (part whole) (drive whole input))
    (whole : Whole) (inputs : List Input) :
    part (run step whole inputs) = run partStep (part whole) (feed step drive whole inputs) := by
  induction inputs generalizing whole with
  | nil => rfl
  | cons input rest inductionHypothesis =>
    rw [run_cons, inductionHypothesis, feed, run_cons, commutes]

/-- A condition along the run of the component is a condition along the run of the whole. -/
theorem along_feed (part : Whole → State) (drive : Whole → Input → Drive)
    (commutes : ∀ whole input,
      part (step whole input) = partStep (part whole) (drive whole input))
    (admits : State → Drive → Prop) (whole : Whole) (inputs : List Input) :
    Along partStep admits (part whole) (feed step drive whole inputs) ↔
      Along step (fun whole input => admits (part whole) (drive whole input)) whole inputs := by
  induction inputs generalizing whole with
  | nil => exact Iff.rfl
  | cons input rest inductionHypothesis =>
    rw [feed, Along, Along, ← inductionHypothesis, commutes]

end Feed

end Clocked
