import Equational.Proofs.Machine.Simulation

/-! # Outcomes of runs

    A run of the machine ends with an outcome, or it goes on forever
    (`Theory.Ends`, `Theory.RunsForever`).

    * The budget of a run only grows, one firing at a time, and stays within its
      limit (`Leads.grows`).
    * Normalization gives an outcome exactly when the machine ends with it, by
      some fuel or under the limit (`ends_iff`), and from the firings made on by
      every fuel (`normalize_of_ends`).
    * The machine runs forever exactly when no fuel suffices (`runsForever_iff`).
-/

namespace Equational

open Machine

/-! ## Budgets along a run -/

/-- A later budget of the same run. -/
structure Budget.Grows (budget after : Budget) : Prop where
  limit_eq : after.limit = budget.limit
  used_le : budget.used ≤ after.used
  within : ∀ limit, budget.limit = some limit → after.used - budget.used ≤ limit - budget.used

theorem Budget.Grows.refl (budget : Budget) : budget.Grows budget :=
  ⟨rfl, Nat.le_refl _, fun _ _ => by omega⟩

theorem Budget.Grows.trans {a b c : Budget} (hab : a.Grows b) (hbc : b.Grows c) : a.Grows c := by
  refine ⟨hbc.limit_eq.trans hab.limit_eq, Nat.le_trans hab.used_le hbc.used_le, ?_⟩
  intro limit hlimit
  have hb : b.limit = some limit := hab.limit_eq.trans hlimit
  have hfirst := hab.within limit hlimit
  have hlast := hbc.within limit hb
  have hle := hab.used_le
  omega

theorem Budget.grows_of_charge {budget after : Budget} {sort : String}
    (h : budget.charge sort = .ok after) : budget.Grows after := by
  obtain ⟨rfl, hcovers⟩ := Budget.charge_eq_ok h
  refine ⟨rfl, Nat.le_add_right _ _, ?_⟩
  intro limit hlimit
  have hone := hcovers limit hlimit
  show budget.used + 1 - budget.used ≤ limit - budget.used
  omega

namespace Machine

variable {table : String → Except Error Specification} {state next : State}

/-- A firing that is paid for is the only move that changes the budget. -/
theorem State.budget_of_step? (h : state.step? table = some next) :
    next.budget = state.budget ∨ ∃ sort, state.budget.charge sort = .ok next.budget := by
  unfold State.step? at h
  obtain ⟨move, _, hmade⟩ := Option.map_eq_some_iff.mp h
  rw [← hmade]
  cases move with
  | next phase frames => exact .inl rfl
  | again term => exact .inl rfl
  | fail error => exact .inl rfl
  | fire specification result =>
    cases hcharge : state.budget.charge specification.name with
    | error error => exact .inl (by simp [State.make, hcharge, State.fail])
    | ok budget => exact .inr ⟨specification.name, by simp [State.make, hcharge]⟩

theorem State.grows_of_step? (h : state.step? table = some next) :
    state.budget.Grows next.budget := by
  rcases State.budget_of_step? h with heq | ⟨sort, hcharge⟩
  · rw [heq]
    exact Budget.Grows.refl _
  · exact Budget.grows_of_charge hcharge

/-- Only a run that is over has no move that is due. -/
theorem move?_eq_none_iff {phase : Phase} {frames : List Frame} :
    move? table phase frames = none ↔ ∃ outcome, phase = .ended outcome := by
  constructor
  · intro h
    fun_cases move? table phase frames
    all_goals simp_all [move?]
  · rintro ⟨outcome, rfl⟩
    rw [move?]

theorem State.step?_eq_none_iff :
    state.step? table = none ↔ ∃ outcome, state.phase = .ended outcome := by
  unfold State.step?
  rw [Option.map_eq_none_iff, move?_eq_none_iff]

end Machine

namespace Theory

variable {theory : Theory} {specification : Specification} {budget behind : Budget} {term : Term}
  {outcome : Except Error Term}

theorem Leads.grows {a b : State} (h : theory.Leads a b) : a.budget.Grows b.budget := by
  induction h with
  | refl => exact Budget.Grows.refl _
  | tail _ hstep ih => exact ih.trans (State.grows_of_step? hstep)

/-! ## Ending and running forever -/

theorem mapError_failed_injective {first second : Except Error Term}
    (h : first.mapError Stop.failed = second.mapError Stop.failed) : first = second := by
  cases first with
  | ok value => cases second with
    | ok other => simpa [mapError_ok] using h
    | error error => cases h
  | error error => cases second with
    | ok value => cases h
    | error other => simpa [mapError_error] using h

/-- The normalization of a term ends with an outcome, and leaves a budget. -/
def Ends (theory : Theory) (budget : Budget) (specification : Specification) (term : Term)
    (outcome : Except Error Term) (behind : Budget) : Prop :=
  ∃ final ∈ StateTransition.eval (State.step? theory.lookup) (.begin specification term budget),
    final.phase = .ended outcome ∧ final.budget = behind

/-- The normalization of a term goes on forever. -/
def RunsForever (theory : Theory) (budget : Budget) (specification : Specification)
    (term : Term) : Prop :=
  ¬ (StateTransition.eval (State.step? theory.lookup) (.begin specification term budget)).Dom

theorem mem_eval_of_leads {start final : State} (h : theory.Leads start final)
    (hended : final.phase = .ended outcome) :
    final ∈ StateTransition.eval (State.step? theory.lookup) start :=
  StateTransition.mem_eval.mpr ⟨h, State.step?_eq_none_iff.mpr ⟨outcome, hended⟩⟩

theorem ends_of_leads {final : State} (h : theory.Leads (.begin specification term budget) final)
    (hended : final.phase = .ended outcome) :
    theory.Ends budget specification term outcome final.budget :=
  ⟨final, mem_eval_of_leads h hended, hended, rfl⟩

/-- A run has one outcome. -/
theorem Ends.unique {outcome' : Except Error Term} {behind' : Budget}
    (h : theory.Ends budget specification term outcome behind)
    (h' : theory.Ends budget specification term outcome' behind') :
    outcome = outcome' ∧ behind = behind' := by
  obtain ⟨final, hfinal, hended, rfl⟩ := h
  obtain ⟨final', hfinal', hended', rfl⟩ := h'
  have heq : final = final' := Part.mem_unique hfinal hfinal'
  rw [heq, hended', Phase.ended.injEq] at hended
  exact ⟨hended.symm, by rw [heq]⟩

/-- A run ends or goes on forever. -/
theorem ends_or_runsForever (theory : Theory) (budget : Budget) (specification : Specification)
    (term : Term) :
    (∃ outcome behind, theory.Ends budget specification term outcome behind) ∨
      theory.RunsForever budget specification term := by
  by_cases hdom :
      (StateTransition.eval (State.step? theory.lookup) (.begin specification term budget)).Dom
  · obtain ⟨final, hfinal⟩ := Part.dom_iff_mem.mp hdom
    obtain ⟨outcome, hended⟩ := State.step?_eq_none_iff.mp (StateTransition.mem_eval.mp hfinal).2
    exact .inl ⟨outcome, final.budget, final, hfinal, hended, rfl⟩
  · exact .inr hdom

/-- Whatever state a run that ends gets to, it ends from there. -/
theorem Leads.to_end {start state final : State} (h : theory.Leads start state)
    (hfinal : final ∈ StateTransition.eval (State.step? theory.lookup) start) :
    theory.Leads state final := by
  have heval := StateTransition.reaches_eval h
  rw [heval] at hfinal
  exact (StateTransition.mem_eval.mp hfinal).1

theorem Ends.grows (h : theory.Ends budget specification term outcome behind) :
    budget.Grows behind := by
  obtain ⟨final, hfinal, _, rfl⟩ := h
  exact Leads.grows (Leads.to_end (Leads.refl _) hfinal)

/-- A run that ends is what normalization computes, if the fuel covers the
    firings that it makes. -/
theorem normalize_of_ends (h : theory.Ends budget specification term outcome behind) (fuel : Nat)
    (enough : budget.limit = none → behind.used ≤ budget.used + fuel) :
    theory.normalize fuel budget specification term = (outcome.mapError .failed, behind) := by
  obtain ⟨final, hleads, hbudget, _, hfinal⟩ :=
    theory.normalize_leads fuel budget specification term
  rcases hfinal with ⟨found, hrun, hended⟩ | ⟨sort, hrun, hlimit, hspent, owner, next, hmove⟩
  · obtain ⟨rfl, rfl⟩ := h.unique (ends_of_leads hleads hended)
    exact Prod.ext hrun hbudget.symm
  · -- the machine fires once more than there was fuel
    have hlimit' : final.budget.limit = none := by
      rw [hspent]
      exact hlimit
    obtain ⟨later, hlater, hlaterBudget⟩ := leads_of_fire hlimit' hmove
    obtain ⟨last, hlast, _, rfl⟩ := h
    have hused := ((hleads.trans hlater).to_end hlast).grows.used_le
    rw [hlaterBudget, hspent] at hused
    have hmore : budget.used + fuel + 1 ≤ last.budget.used := hused
    have hle := enough hlimit
    omega

/-- A normalization has an outcome exactly when the machine ends with it. -/
theorem ends_iff : theory.Ends budget specification term outcome behind ↔
    ∃ fuel, theory.normalize fuel budget specification term =
      (outcome.mapError .failed, behind) := by
  constructor
  · intro h
    refine ⟨behind.used - budget.used, normalize_of_ends h _ fun _ => ?_⟩
    have hle := h.grows.used_le
    omega
  · rintro ⟨fuel, h⟩
    obtain ⟨final, hleads, hbudget, _, hfinal⟩ :=
      theory.normalize_leads fuel budget specification term
    rw [h] at hbudget hfinal
    have hbehind : final.budget = behind := hbudget
    rcases hfinal with ⟨found, hrun, hended⟩ | ⟨sort, hrun, _⟩
    · rw [mapError_failed_injective hrun, ← hbehind]
      exact ends_of_leads hleads hended
    · cases outcome with
      | ok result => cases hrun
      | error error => cases hrun

/-- The machine runs forever exactly when every fuel is used up. -/
theorem runsForever_iff : theory.RunsForever budget specification term ↔
    ∀ fuel, ∃ sort, (theory.normalize fuel budget specification term).1 =
      .error (.exhausted sort) := by
  constructor
  · intro h fuel
    obtain ⟨final, hleads, _, _, hfinal⟩ := theory.normalize_leads fuel budget specification term
    rcases hfinal with ⟨found, _, hended⟩ | ⟨sort, hrun, _⟩
    · exact absurd (Part.dom_iff_mem.mpr ⟨final, mem_eval_of_leads hleads hended⟩) h
    · exact ⟨sort, hrun⟩
  · intro h
    rcases theory.ends_or_runsForever budget specification term with
      ⟨outcome, behind, hends⟩ | hforever
    · obtain ⟨fuel, hrun⟩ := ends_iff.mp hends
      obtain ⟨sort, hsort⟩ := h fuel
      rw [hrun] at hsort
      cases outcome with
      | ok result => cases hsort
      | error error => cases hsort
    · exact hforever

/-- A term that is rewritten to itself is rewritten forever. -/
theorem runsForever_of_step?_self (hsort : term.sort = specification.name)
    (hstep : specification.step? term = .ok (some term)) (hlimit : budget.limit = none) :
    theory.RunsForever budget specification term := by
  have howner : theory.owner specification term = .ok specification := if_pos hsort
  have hsettle : ∀ n, theory.settle n specification term =
      ⟨.error (.exhausted specification.name), 0⟩ := by
    intro n
    induction n with
    | zero =>
      unfold settle
      simp only [howner, hstep]
    | succ n ih =>
      unfold settle
      simp only [howner, hstep, ih]
  apply runsForever_iff.mpr
  intro fuel
  have hrun : theory.normalizeWithin specification fuel term =
      ⟨.error (.exhausted specification.name), 0⟩ := by
    unfold normalizeWithin
    simp only [pass_eq, hsettle]
  refine ⟨specification.name, ?_⟩
  simp [normalize, Budget.allowance, hlimit, hrun, mapError_error, Budget.explain]

end Theory

end Equational
