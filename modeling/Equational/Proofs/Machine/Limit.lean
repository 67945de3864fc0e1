import Equational.Proofs.Machine.Outcome
import Equational.Proofs.Specification.Numbers
import Mathlib

/-! # What a limit does

    A limit does nothing but end a run, and it does so at the firing that would
    exceed it (`limit_truncates`).

    The proof follows two machines that differ in the limit alone. As long as the
    one with the limit is not refused a firing they make the same moves
    (`step?_limited`); where it is, it has used up its limit, and the other makes
    the firing (`lockstep`).

    A machine may serve one normalization after another with one budget
    (`Theory.Serves`). The count of firings never goes down and never passes the
    limit, in any state of any of these runs.
-/

namespace Equational

open Machine

namespace Machine

/-- The same state with a limit. -/
def State.limited (state : State) (limit : Nat) : State :=
  { state with budget := { state.budget with limit := some limit } }

variable {table : String → Except Error Specification} {state : State} {limit : Nat}

/-- With a limit a machine makes the same move, or else it is refused a firing
    that it makes without. -/
theorem State.step?_limited (hlimit : state.budget.limit = none)
    (hle : state.budget.used ≤ limit) :
    ((state.limited limit).step? table = (state.step? table).map (·.limited limit) ∧
      ∀ next, state.step? table = some next → next.budget.used ≤ limit) ∨
    ∃ next sort, state.step? table = some next ∧ state.budget.used = limit ∧
      next.budget.used = limit + 1 ∧
      (state.limited limit).step? table =
        some ((state.limited limit).fail (.rewrite (.stepLimitExceeded sort limit))) := by
  have hphase : (state.limited limit).phase = state.phase := rfl
  have hframes : (state.limited limit).frames = state.frames := rfl
  unfold State.step?
  rw [hphase, hframes]
  cases hmove : move? table state.phase state.frames with
  | none => exact .inl ⟨rfl, by simp⟩
  | some move =>
    cases move with
    | next phase frames => exact .inl ⟨rfl, by simpa [State.make] using hle⟩
    | again term => exact .inl ⟨rfl, by simpa [State.make] using hle⟩
    | fail error => exact .inl ⟨rfl, by simpa [State.make, State.fail] using hle⟩
    | fire owner result =>
      by_cases hlt : state.budget.used < limit
      · left
        constructor
        · simp [State.make, State.limited, Budget.charge, hlimit, hlt]
        · intro next hnext
          rw [← Option.some.inj hnext]
          simp only [State.make, Budget.charge, hlimit]
          omega
      · right
        have heq : state.budget.used = limit := by omega
        refine ⟨_, owner.name, rfl, heq, ?_, ?_⟩
        · simp [State.make, Budget.charge, hlimit, heq]
        · simp [State.make, State.limited, Budget.charge, heq]

end Machine

namespace Theory

variable {theory : Theory} {specification : Specification} {term : Term} {limit used : Nat}

/-- Where a machine with a limit is, there the one without gets too, or goes on
    from where the limit was reached. -/
theorem lockstep {start state : State} (hlimit : start.budget.limit = none)
    (hle : start.budget.used ≤ limit) (h : theory.Leads (start.limited limit) state) :
    (∃ other, theory.Leads start other ∧ other.budget.limit = none ∧
      other.budget.used ≤ limit ∧ state = other.limited limit) ∨
    ∃ other sort, theory.Leads start other ∧ other.budget.used = limit + 1 ∧
      state.budget = ⟨some limit, limit⟩ ∧
      state.phase = .ended (.error (.rewrite (.stepLimitExceeded sort limit))) := by
  induction h with
  | refl => exact .inl ⟨start, Leads.refl start, hlimit, hle, rfl⟩
  | @tail before state _ hstep ih =>
    rcases ih with ⟨other, hleads, hnone, hused, rfl⟩ | ⟨_, _, _, _, _, hended⟩
    · rcases State.step?_limited hnone hused with
        ⟨hsame, hnext⟩ | ⟨next, sort, hnext, heq, hmore, hfail⟩
      · rw [Option.mem_def, hsame] at hstep
        obtain ⟨next, hother, rfl⟩ := Option.map_eq_some_iff.mp hstep
        have hgrows := State.grows_of_step? hother
        refine .inl ⟨next, hleads.trans (leads_of_step? hother), ?_, hnext next hother, rfl⟩
        exact hgrows.limit_eq.trans hnone
      · rw [Option.mem_def, hfail, Option.some.injEq] at hstep
        rw [← hstep]
        refine .inr ⟨next, sort, hleads.trans (leads_of_step? hnext), hmore, ?_, rfl⟩
        show (other.limited limit).budget = ⟨some limit, limit⟩
        simp [State.limited, heq]
    · -- a run that is over makes no move
      have hnone : State.step? theory.lookup _ = none := State.step?_eq_none_iff.mpr ⟨_, hended⟩
      rw [Option.mem_def, hnone] at hstep
      cases hstep

/-- A run with a limit ends like the one without, or else at the limit, which the
    one without exceeds. -/
theorem ends_limited (theory : Theory) (specification : Specification) (term : Term)
    (within : used ≤ limit) :
    (∃ outcome last, last ≤ limit ∧
      theory.Ends ⟨none, used⟩ specification term outcome ⟨none, last⟩ ∧
      theory.Ends ⟨some limit, used⟩ specification term outcome ⟨some limit, last⟩) ∨
    ∃ state sort, theory.Leads (.begin specification term ⟨none, used⟩) state ∧
      state.budget.used = limit + 1 ∧
      theory.Ends ⟨some limit, used⟩ specification term
        (.error (.rewrite (.stepLimitExceeded sort limit))) ⟨some limit, limit⟩ := by
  obtain ⟨final, hleads, _, _, hfinal⟩ :=
    theory.normalize_leads 0 ⟨some limit, used⟩ specification term
  have hstep : theory.Leads
      ((State.begin specification term ⟨none, used⟩).limited limit) final := hleads
  rcases hfinal with ⟨outcome, _, hended⟩ | ⟨_, _, hnone, _⟩
  · have hends := ends_of_leads hleads hended
    rcases lockstep rfl within hstep with
      ⟨other, hother, hnone, hle, rfl⟩ | ⟨other, sort, hother, hmore, hbudget, hphase⟩
    · left
      have hbudget : other.budget = ⟨none, other.budget.used⟩ := by rw [← hnone]
      refine ⟨outcome, other.budget.used, hle, ?_, hends⟩
      rw [← hbudget]
      exact ends_of_leads hother hended
    · right
      refine ⟨other, sort, hother, hmore, ?_⟩
      rw [← hbudget]
      exact ends_of_leads hleads hphase
  · cases hnone

/-! ## One normalization after another -/

/-- What a machine goes through that normalizes terms at the expense of one
    budget. -/
inductive Serves (theory : Theory) : State → State → Prop where
  /-- A move of a run. -/
  | move {state next : State} : state.step? theory.lookup = some next → Serves theory state next
  /-- When a run is over, another begins with the budget that it left. -/
  | renew {state : State} {outcome : Except Error Term} (specification : Specification)
      (term : Term) : state.phase = .ended outcome →
      Serves theory state (.begin specification term state.budget)

theorem Serves.grows {state next : State} (h : theory.Serves state next) :
    state.budget.Grows next.budget := by
  cases h with
  | move hstep => exact State.grows_of_step? hstep
  | renew => exact Budget.Grows.refl _

theorem grows_of_serves {state later : State}
    (h : Relation.ReflTransGen theory.Serves state later) : state.budget.Grows later.budget := by
  induction h with
  | refl => exact Budget.Grows.refl _
  | tail _ hstep ih => exact ih.trans hstep.grows

/-! ## Truncation -/

/-- A limit only truncates. If the run without limit ends after `k` firings, the
    one with the limit ends in the same way if it allows these, and otherwise
    fails with the limit used up; so it does if the run without limit goes on
    forever. In no state of the run, or of those that follow with the same
    budget, has the count gone down or passed the limit, so what can hold the
    limit can hold the count. -/
theorem limit_truncates (theory : Theory) (specification : Specification) (term : Term)
    (limit used : Nat) (within : used ≤ limit) :
    (∀ outcome k, theory.Ends ⟨none, used⟩ specification term outcome ⟨none, used + k⟩ →
      (used + k ≤ limit → ∀ fuel, theory.normalize fuel ⟨some limit, used⟩ specification term =
        (outcome.mapError .failed, ⟨some limit, used + k⟩)) ∧
      (limit < used + k → ∃ sort, ∀ fuel,
        theory.normalize fuel ⟨some limit, used⟩ specification term =
          (.error (.failed (.rewrite (.stepLimitExceeded sort limit))), ⟨some limit, limit⟩))) ∧
    (theory.RunsForever ⟨none, used⟩ specification term → ∃ sort, ∀ fuel,
      theory.normalize fuel ⟨some limit, used⟩ specification term =
        (.error (.failed (.rewrite (.stepLimitExceeded sort limit))), ⟨some limit, limit⟩)) ∧
    ∀ state later, Relation.ReflTransGen theory.Serves
        (.begin specification term ⟨some limit, used⟩) state →
      Relation.ReflTransGen theory.Serves state later →
      later.budget.limit = some limit ∧ state.budget.used ≤ later.budget.used ∧
        later.budget.used ≤ limit := by
  have hlimited : ∀ {outcome behind},
      theory.Ends ⟨some limit, used⟩ specification term outcome behind → ∀ fuel,
        theory.normalize fuel ⟨some limit, used⟩ specification term =
          (outcome.mapError .failed, behind) := by
    intro outcome behind h fuel
    exact normalize_of_ends h fuel (by simp)
  refine ⟨?_, ?_, ?_⟩
  · intro outcome k hends
    rcases theory.ends_limited specification term within with
      ⟨found, last, hle, hfree, hbound⟩ | ⟨state, sort, hstate, hmore, hbound⟩
    · obtain ⟨rfl, hbehind⟩ := hends.unique hfree
      have hlast : used + k = last := congrArg Budget.used hbehind
      rw [← hlast] at hbound hle
      exact ⟨fun _ => hlimited hbound, fun hlt => absurd hle (by omega)⟩
    · -- the run without limit comes by a state that exceeds the limit
      obtain ⟨final, hfinal, _, hbudget⟩ := hends
      have hused := (hstate.to_end hfinal).grows.used_le
      rw [hmore, hbudget] at hused
      have hexceeds : limit + 1 ≤ used + k := hused
      exact ⟨fun hle => absurd hle (by omega), fun _ => ⟨sort, hlimited hbound⟩⟩
  · intro hforever
    rcases theory.ends_limited specification term within with
      ⟨found, last, _, ⟨final, hfinal, _⟩, _⟩ | ⟨state, sort, _, _, hbound⟩
    · exact absurd (Part.dom_iff_mem.mpr ⟨final, hfinal⟩) hforever
    · exact ⟨sort, hlimited hbound⟩
  · intro state later hstate hlater
    have hgrows := (grows_of_serves hstate).trans (grows_of_serves hlater)
    have hwithin := hgrows.within limit rfl
    refine ⟨hgrows.limit_eq, (grows_of_serves hlater).used_le, ?_⟩
    simp only [State.begin] at hwithin
    omega

/-- One and zero are added in two firings, for which a limit of five leaves room
    after three and a limit of four does not. A constant that is its own
    contractum uses up any limit. -/
theorem one_plus_zero_truncated :
    let theory : Theory := (∅ : Theory).register .numbers
    let sum := Term.plus (.ofCount 1) (.ofCount 0)
    let restless := Term.app "again" "Restless" []
    let rule : Rule := ⟨restless, restless, rfl⟩
    let specification : Specification :=
      ⟨⟨"Restless", [], [⟨"again", [], "Restless"⟩]⟩, [rule]⟩
    3 ≤ 5 ∧ 3 ≤ 4 ∧
      (∀ fuel, theory.normalize fuel ⟨some 5, 3⟩ .numbers sum = (.ok (.ofCount 1), ⟨some 5, 5⟩)) ∧
      (∃ sort, ∀ fuel, theory.normalize fuel ⟨some 4, 3⟩ .numbers sum =
        (.error (.failed (.rewrite (.stepLimitExceeded sort 4))), ⟨some 4, 4⟩)) ∧
      ∃ sort, ∀ fuel, theory.normalize fuel ⟨some 5, 3⟩ specification restless =
        (.error (.failed (.rewrite (.stepLimitExceeded sort 5))), ⟨some 5, 5⟩) := by
  intro theory sum restless rule specification
  have hfive : 3 ≤ 5 := by decide
  have hfour : 3 ≤ 4 := by decide
  have hsum : theory.Ends ⟨none, 3⟩ .numbers sum (.ok (.ofCount 1)) ⟨none, 3 + 2⟩ :=
    ends_iff.mpr ⟨2, by cbv⟩
  have hforever : theory.RunsForever ⟨none, 3⟩ specification restless :=
    runsForever_of_step?_self rfl (by cbv) rfl
  refine ⟨hfive, hfour, ?_, ?_, ?_⟩
  · exact ((limit_truncates theory .numbers sum 5 3 hfive).1 _ 2 hsum).1 (by decide)
  · exact ((limit_truncates theory .numbers sum 4 3 hfour).1 _ 2 hsum).2 (by decide)
  · exact (limit_truncates theory specification restless 5 3 hfive).2.1 hforever

end Theory

end Equational
