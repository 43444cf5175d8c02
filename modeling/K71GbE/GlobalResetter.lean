/-
This file models `GlobalResetter`, which resets the clock generator and then the
design, and says at which edges it goes from one state to the next.

`FORCE_RST` is asynchronous: it takes the machine to `R0` also between two edges, and
holds it there, but drives no output. A sequence begins with the edge that leaves `R0`.
Without another `FORCE_RST` the edges of `R1` and of `R3` are counted, and those of `R2`
last until one at which `DCM_LOCKED` is high.
-/

import K71GbE.Clocked.Progress

namespace K71GbE

open Clocked

/-- `rstState_type`. -/
inductive RstState where
  | r0 | r1 | r2 | r3 | r4
deriving DecidableEq, Repr

/-- The generics, with the delay counts in the range of the counter. -/
structure ResetGenerics where
  clkResetDelayCnt : Nat
  gblResetDelayCnt : Nat
  cntRangeHigh : Nat
  clk_pos : 0 < clkResetDelayCnt
  clk_le : clkResetDelayCnt ≤ cntRangeHigh
  gbl_pos : 0 < gblResetDelayCnt
  gbl_le : gblResetDelayCnt ≤ cntRangeHigh

/-- The registers. An output is `none` before it is driven for the first time. -/
structure GlobalResetter where
  rstState : RstState
  rstCtr : Nat
  clkRst : Option Bool
  globalRst : Option Bool
deriving DecidableEq, Repr

/-- What the process sees at an edge, and whether `FORCE_RST` was high at any time since the edge
before. -/
structure ResetInput where
  pulse : Bool
  forceRst : Bool
  dcmLocked : Bool
deriving DecidableEq, Repr

namespace ResetGenerics

variable (generics : ResetGenerics)

/-- `rstCtr + 1`, in the range of the counter. -/
def next (rstCtr : Nat) : Nat := if rstCtr = generics.cntRangeHigh then 0 else rstCtr + 1

/-- The edges for which the header promises `CLK_RST`. -/
def clkCycles : Nat := generics.cntRangeHigh - generics.clkResetDelayCnt

/-- The edges for which the header promises to wait after the lock. -/
def gblCycles : Nat := generics.cntRangeHigh - generics.gblResetDelayCnt

/-- The edges until the counter is back at zero. -/
def left (rstCtr : Nat) : Nat := if rstCtr = 0 then 0 else generics.cntRangeHigh + 1 - rstCtr

theorem left_eq_zero {rstCtr : Nat} (range : rstCtr ≤ generics.cntRangeHigh) :
    generics.left rstCtr = 0 ↔ rstCtr = 0 := by
  unfold left
  split_ifs with zero
  · simp [zero]
  · exact ⟨fun delayed => by omega, fun delayed => absurd delayed zero⟩

theorem next_le {rstCtr : Nat} (range : rstCtr ≤ generics.cntRangeHigh) :
    generics.next rstCtr ≤ generics.cntRangeHigh := by
  unfold next
  split_ifs <;> omega

theorem left_of_pos {rstCtr : Nat} (more : rstCtr ≠ 0) :
    generics.left rstCtr = generics.cntRangeHigh + 1 - rstCtr := if_neg more

theorem left_next {rstCtr : Nat} (range : rstCtr ≤ generics.cntRangeHigh) (more : rstCtr ≠ 0) :
    generics.left (generics.next rstCtr) + 1 = generics.left rstCtr := by
  rw [generics.left_of_pos more, next]
  split_ifs with last
  · rw [left, if_pos rfl]
    omega
  · rw [generics.left_of_pos (Nat.succ_ne_zero rstCtr)]
    omega

/-- A counter that starts at a delay count is back at zero after one edge more than the header
promises. -/
theorem left_delay {delay : Nat} (positive : 0 < delay) (range : delay ≤ generics.cntRangeHigh) :
    generics.left delay = generics.cntRangeHigh - delay + 1 := by
  rw [generics.left_of_pos positive.ne']
  omega

end ResetGenerics

namespace GlobalResetter

/-- The registers before the first edge. -/
def powerOn : GlobalResetter := ⟨.r0, 0, none, none⟩

/-- `FORCE_RST` is high. -/
def force (state : GlobalResetter) : GlobalResetter := { state with rstState := .r0, rstCtr := 0 }

/-- A rising edge of `CLK` while `FORCE_RST` is low. -/
def clock (generics : ResetGenerics) (state : GlobalResetter) (dcmLocked : Bool) :
    GlobalResetter :=
  let driven := { state with clkRst := some false, globalRst := some true }
  match state.rstState with
  | .r0 =>
    { driven with clkRst := some true, rstCtr := generics.clkResetDelayCnt, rstState := .r1 }
  | .r1 =>
    if state.rstCtr = 0 then { driven with clkRst := some true, rstState := .r2 }
    else { driven with clkRst := some true, rstCtr := generics.next state.rstCtr }
  | .r2 =>
    { driven with
      rstCtr := generics.gblResetDelayCnt
      rstState := if dcmLocked then .r3 else .r2 }
  | .r3 =>
    if state.rstCtr = 0 then { driven with rstState := .r4 }
    else { driven with rstCtr := generics.next state.rstCtr }
  | .r4 => { driven with globalRst := some false, rstState := if dcmLocked then .r4 else .r0 }

/-- What happens from behind one edge to behind the next. -/
def step (generics : ResetGenerics) (state : GlobalResetter) (input : ResetInput) :
    GlobalResetter :=
  let now := if input.pulse then state.force else state
  if input.forceRst then now.force else now.clock generics input.dcmLocked

variable {generics : ResetGenerics} {state : GlobalResetter} {input : ResetInput}

theorem step_of_force (forced : input.forceRst = true) :
    state.step generics input = state.force := by
  unfold step
  rw [if_pos forced]
  split_ifs <;> rfl

theorem step_of_calm (calm : input.pulse = false ∧ input.forceRst = false) :
    state.step generics input = state.clock generics input.dcmLocked := by
  unfold step
  rw [calm.1, calm.2, if_neg Bool.false_ne_true, if_neg Bool.false_ne_true]

/-- A sequence begins. -/
theorem step_of_begins (forced : input.forceRst = false)
    (begins : state.rstState = .r0 ∨ input.pulse = true) :
    state.step generics input = ⟨.r1, generics.clkResetDelayCnt, some true, some true⟩ := by
  unfold step
  rw [forced, if_neg Bool.false_ne_true]
  rcases begins with rest | pulse
  · split_ifs
    · rfl
    · rw [clock, rest]
  · rw [if_pos pulse]
    rfl

/-! ### The outputs -/

theorem clock_clkRst (dcmLocked : Bool) :
    (state.clock generics dcmLocked).clkRst =
      some (decide (state.rstState = .r0 ∨ state.rstState = .r1)) := by
  unfold clock
  cases now : state.rstState with
  | r1 | r3 => dsimp only; split_ifs <;> rfl
  | _ => rfl

theorem clock_globalRst (dcmLocked : Bool) :
    (state.clock generics dcmLocked).globalRst = some (decide (state.rstState ≠ .r4)) := by
  unfold clock
  cases now : state.rstState with
  | r1 | r3 => dsimp only; split_ifs <;> rfl
  | _ => rfl

/-- The reset of the design is released in `R4`, and a forced reset leaves it so. -/
def OutputsAgree (state : GlobalResetter) : Prop :=
  state.globalRst = some false →
    state.clkRst = some false ∧ (state.rstState = .r0 ∨ state.rstState = .r4)

theorem outputsAgree_clock (dcmLocked : Bool) : (state.clock generics dcmLocked).OutputsAgree := by
  intro released
  rw [clock_globalRst, Option.some_inj, decide_eq_false_iff_not, not_not] at released
  refine ⟨by rw [clock_clkRst, released]; rfl, ?_⟩
  rw [clock, released]
  cases dcmLocked with
  | false => exact .inl rfl
  | true => exact .inr rfl

theorem OutputsAgree.step (agree : state.OutputsAgree) (input : ResetInput) :
    (state.step generics input).OutputsAgree := by
  cases forced : input.forceRst with
  | false =>
    unfold GlobalResetter.step
    rw [forced, if_neg Bool.false_ne_true]
    exact outputsAgree_clock input.dcmLocked
  | true =>
    rw [step_of_force forced]
    exact fun released => ⟨(agree released).1, .inl rfl⟩

end GlobalResetter

end K71GbE
