import Mathlib.Computability.StateTransition
import Equational.Rewriting.Budget

/-! # A machine for normalization

    Normalization written out as single moves, in which nothing says that it
    comes to an end:

    * **State**: the specification that every pass starts with, the budget, the
      number of passes begun, what is being done (`Phase`), and the passes that
      wait (`Frame`).
    * **Moves**: a pass hands its term over when the term is not of its sort,
      fires a rule at its root, goes over the arguments, and reports whether any
      rule was fired; when the outermost pass reports so, the next one begins.
    * **Runs**: `StateTransition.eval` repeats moves until there is none, and has
      no value for a run that goes on forever.

    The machine looks specifications up in any table. One that keeps a
    specification under a name other than its own would have it hand its term
    over again and again.
-/

namespace Equational

namespace Budget

/-- Pays for one firing, unless the limit is reached. -/
def charge (budget : Budget) (sort : String) : Except RewriteError Budget :=
  match budget.limit with
  | some limit =>
    if budget.used < limit then .ok { budget with used := budget.used + 1 }
    else .error (.stepLimitExceeded sort limit)
  | none => .ok { budget with used := budget.used + 1 }

/-- The budget after some more firings. -/
def spend (budget : Budget) (count : Nat) : Budget :=
  { budget with used := budget.used + count }

/-- The limit, if there is one, allows some more firings. -/
def Covers (budget : Budget) (count : Nat) : Prop :=
  ∀ limit, budget.limit = some limit → count ≤ limit - budget.used

@[simp] theorem spend_zero (budget : Budget) : budget.spend 0 = budget := rfl

@[simp] theorem spend_spend (budget : Budget) (j k : Nat) :
    (budget.spend j).spend k = budget.spend (j + k) := by
  simp [spend, Nat.add_assoc]

theorem covers_allowance (budget : Budget) (fuel : Nat) :
    budget.Covers (budget.allowance fuel) := by
  intro limit hlimit
  simp [allowance, hlimit]

/-- What was covered and is not spent is covered still. -/
theorem Covers.spend {budget : Budget} {j k : Nat} (h : budget.Covers (k + j)) :
    (budget.spend j).Covers k := by
  intro limit hlimit
  have hle := h limit hlimit
  show k ≤ limit - (budget.used + j)
  omega

theorem Covers.rest {budget : Budget} {m n : Nat} (h : budget.Covers n) (hle : m ≤ n) :
    (budget.spend (n - m)).Covers m := by
  apply Covers.spend
  rw [Nat.add_sub_cancel' hle]
  exact h

theorem charge_of_covers {budget : Budget} {count : Nat} (h : budget.Covers (count + 1))
    (sort : String) : budget.charge sort = .ok (budget.spend 1) := by
  unfold charge
  cases hlimit : budget.limit with
  | none => simp [Budget.spend, hlimit]
  | some limit =>
    have hle := h limit hlimit
    have hlt : budget.used < limit := by omega
    simp [Budget.spend, hlimit, hlt]

theorem charge_of_reached {budget : Budget} {limit : Nat} (hlimit : budget.limit = some limit)
    (hreached : limit ≤ budget.used) (sort : String) :
    budget.charge sort = .error (.stepLimitExceeded sort limit) := by
  have hnot : ¬ budget.used < limit := by omega
  simp [charge, hlimit, hnot]

/-- A firing that is paid for counts once, and is within the limit. -/
theorem charge_eq_ok {budget after : Budget} {sort : String}
    (h : budget.charge sort = .ok after) : after = budget.spend 1 ∧ budget.Covers 1 := by
  unfold charge at h
  cases hlimit : budget.limit with
  | none =>
    simp only [hlimit, Except.ok.injEq] at h
    rw [← h]
    exact ⟨by simp [Budget.spend, hlimit], by simp [Covers, hlimit]⟩
  | some limit =>
    simp only [hlimit] at h
    by_cases hlt : budget.used < limit
    · simp only [if_pos hlt, Except.ok.injEq] at h
      rw [← h]
      refine ⟨by simp [Budget.spend, hlimit], ?_⟩
      intro other hother
      have heq : limit = other := by simpa [hlimit] using hother
      omega
    · simp [if_neg hlt] at h

end Budget

namespace Machine

/-! ## States -/

/-- A pass that waits for another one to end. `changed` tells whether it has
    fired a rule so far. -/
inductive Frame where
  /-- It handed its term over to the specification of the term's sort. -/
  | handed (changed : Bool)
  /-- It is at one of the arguments: those before it have been passed over, those
      after it have not. -/
  | argument (operation sort : String) (before after : List Term) (changed : Bool)

/-- What is being done. -/
inductive Phase where
  /-- A pass looks at the root of its term. -/
  | root (specification : Specification) (term : Term) (changed : Bool)
  /-- A pass looks for the next argument. -/
  | arguments (operation sort : String) (before after : List Term) (changed : Bool)
  /-- A pass is over. -/
  | passed (term : Term) (changed : Bool)
  /-- The run is over. -/
  | ended (outcome : Except Error Term)

/-- A state of a run. -/
structure State where
  /-- Every pass of the run starts with it. -/
  start : Specification
  budget : Budget
  /-- The passes begun so far. -/
  passes : Nat
  phase : Phase
  /-- The passes that wait, the innermost first. -/
  frames : List Frame

/-- The first pass over a term begins. -/
def State.begin (specification : Specification) (term : Term) (budget : Budget) : State :=
  ⟨specification, budget, 1, .root specification term false, []⟩

/-! ## Moves -/

/-- What a move does. -/
inductive Move where
  /-- Goes on without a firing. -/
  | next (phase : Phase) (frames : List Frame)
  /-- Fires a rule of a specification, which has to be paid for. -/
  | fire (specification : Specification) (result : Term)
  /-- Begins the next pass. -/
  | again (term : Term)
  /-- Gives up. -/
  | fail (error : Error)

/-- The move that is due, if the run is not over. It does not depend on the
    budget. -/
def move? (table : String → Except Error Specification) : Phase → List Frame → Option Move
  | .root specification term changed, frames =>
    if term.sort = specification.name then
      match specification.step? term with
      | .error error => some (.fail (.rewrite error))
      | .ok (some result) => some (.fire specification result)
      | .ok none =>
        match term with
        | .app operation sort arguments =>
          some (.next (.arguments operation sort [] arguments changed) frames)
        | .var name sort => some (.next (.passed (.var name sort) changed) frames)
    else
      match table term.sort with
      | .error error => some (.fail error)
      | .ok owner => some (.next (.root owner term false) (.handed changed :: frames))
  | .arguments operation sort before [] changed, frames =>
    some (.next (.passed (.app operation sort before) changed) frames)
  | .arguments operation sort before (argument :: after) changed, frames =>
    match table argument.sort with
    | .error error => some (.fail error)
    | .ok owner =>
      some (.next (.root owner argument false)
        (.argument operation sort before after changed :: frames))
  -- a pass has fired a rule if it or the pass that it waited for has
  | .passed term changed, .handed earlier :: frames =>
    some (.next (.passed term (earlier || changed)) frames)
  | .passed term changed, .argument operation sort before after earlier :: frames =>
    some (.next (.arguments operation sort (before ++ [term]) after (earlier || changed)) frames)
  | .passed term true, [] => some (.again term)
  | .passed term false, [] => some (.next (.ended (.ok term)) [])
  | .ended _, _ => none

namespace State

/-- The state with something else being done. -/
def goTo (state : State) (phase : Phase) (frames : List Frame) : State :=
  { state with phase := phase, frames := frames }

/-- The state after some more firings. -/
def spend (state : State) (count : Nat) : State :=
  { state with budget := state.budget.spend count }

/-- An error ends the run, whatever waits. -/
def fail (state : State) (error : Error) : State :=
  state.goTo (.ended (.error error)) []

/-- Makes a move. -/
def make (state : State) : Move → State
  | .next phase frames => state.goTo phase frames
  | .fire specification result =>
    match state.budget.charge specification.name with
    | .error error => state.fail (.rewrite error)
    | .ok budget =>
      { state with budget := budget, phase := .root specification result true }
  | .again term =>
    { state with passes := state.passes + 1, phase := .root state.start term false, frames := [] }
  | .fail error => state.fail error

/-- The state after the move that is due. -/
def step? (table : String → Except Error Specification) (state : State) : Option State :=
  (move? table state.phase state.frames).map state.make

@[simp] theorem goTo_phase (state : State) (phase : Phase) (frames : List Frame) :
    (state.goTo phase frames).phase = phase := rfl

@[simp] theorem goTo_frames (state : State) (phase : Phase) (frames : List Frame) :
    (state.goTo phase frames).frames = frames := rfl

@[simp] theorem goTo_budget (state : State) (phase : Phase) (frames : List Frame) :
    (state.goTo phase frames).budget = state.budget := rfl

@[simp] theorem goTo_passes (state : State) (phase : Phase) (frames : List Frame) :
    (state.goTo phase frames).passes = state.passes := rfl

@[simp] theorem goTo_goTo (state : State) (phase phase' : Phase) (frames frames' : List Frame) :
    (state.goTo phase frames).goTo phase' frames' = state.goTo phase' frames' := rfl

@[simp] theorem goTo_spend (state : State) (phase : Phase) (frames : List Frame) (count : Nat) :
    (state.goTo phase frames).spend count = (state.spend count).goTo phase frames := rfl

@[simp] theorem spend_budget (state : State) (count : Nat) :
    (state.spend count).budget = state.budget.spend count := rfl

@[simp] theorem spend_passes (state : State) (count : Nat) :
    (state.spend count).passes = state.passes := rfl

@[simp] theorem spend_zero (state : State) : state.spend 0 = state := rfl

@[simp] theorem spend_spend (state : State) (j k : Nat) :
    (state.spend j).spend k = state.spend (j + k) := by
  simp [spend]

end State

end Machine

end Equational
