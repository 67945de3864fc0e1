import Equational.Proofs.Machine.Outcome

/-! # Termination under a limit

    Whatever the rules are, a run with a limit ends, and after no more passes
    than there are firings left, and one (`limited_normalization_terminates`).
    Two things carry this:

    * All passes but the last have fired a rule, so each of them took something
      from the budget.
    * Within a pass a term is handed over to its owner, and that is of the
      term's sort. It is not handed on before a rule has fired at its root.

    The second is owed to the theory, which keeps each specification under its
    own name. In a table that does not, a term may be handed over forever, and
    no limit helps (`forever_of_misfiled`).
-/

namespace Equational

open Machine

namespace Machine

/-- A pass that another one waits for looks at the root of its term, and has not
    fired a rule there. The term was handed to it as a whole or as an argument. -/
def State.JustHanded (state : State) : Prop :=
  ∃ specification term, state.phase = .root specification term false ∧ state.frames ≠ []

/-- A pass looks at the root of a term that it is about to hand over. -/
def State.HandsOver (state : State) : Prop :=
  ∃ specification term changed, state.phase = .root specification term changed ∧
    term.sort ≠ specification.name

variable {table : String → Except Error Specification}

/-- A term is handed to the specification that the table has for its sort. -/
theorem lookup_of_move?_root {phase : Phase} {frames frames' : List Frame}
    {owner : Specification} {term : Term} {changed : Bool}
    (h : move? table phase frames = some (.next (.root owner term changed) frames')) :
    table term.sort = .ok owner := by
  fun_cases move? table phase frames
  all_goals simp_all [move?]

/-- The only moves after which a term is just handed over are those that hand it
    over. -/
theorem State.lookup_of_justHanded {state next : State} (h : state.step? table = some next)
    {specification : Specification} {term : Term}
    (hphase : next.phase = .root specification term false) (hframes : next.frames ≠ []) :
    table term.sort = .ok specification := by
  unfold State.step? at h
  obtain ⟨move, hmove, rfl⟩ := Option.map_eq_some_iff.mp h
  cases move with
  | next phase' frames' =>
    simp only [State.make, State.goTo_phase] at hphase
    rw [hphase] at hmove
    exact lookup_of_move?_root hmove
  | fire owner result =>
    -- after a firing the pass is marked as changed
    unfold State.make at hphase
    cases hcharge : state.budget.charge owner.name with
    | error error => simp [hcharge, State.fail] at hphase
    | ok budget => simp [hcharge] at hphase
  | again term => simp [State.make] at hframes
  | fail error => simp [State.make, State.fail] at hphase

/-- A term of some other sort is handed over. -/
theorem State.step?_of_misfiled {state : State} {owner : Specification} {term : Term}
    {changed : Bool} (hphase : state.phase = .root owner term changed)
    (hfound : table term.sort = .ok owner) (hname : term.sort ≠ owner.name) :
    state.step? table =
      some (state.goTo (.root owner term false) (.handed changed :: state.frames)) := by
  simp [State.step?, hphase, move?, hname, hfound, State.make]

/-- A table may keep a specification under a name that is not its own. A term of
    that sort is then handed over forever, whatever the limit. -/
theorem forever_of_misfiled {owner : Specification} {term : Term}
    (hfound : table term.sort = .ok owner) (hname : term.sort ≠ owner.name) (budget : Budget) :
    ¬ (StateTransition.eval (State.step? table) (.begin owner term budget)).Dom := by
  have hroot : ∀ state,
      StateTransition.Reaches (State.step? table) (.begin owner term budget) state →
      ∃ changed, state.phase = .root owner term changed := by
    intro state h
    induction h with
    | refl => exact ⟨false, rfl⟩
    | tail _ hstep ih =>
      obtain ⟨changed, hphase⟩ := ih
      have hnext := State.step?_of_misfiled hphase hfound hname
      rw [Option.mem_def, hnext, Option.some.injEq] at hstep
      rw [← hstep]
      exact ⟨false, rfl⟩
  intro hdom
  obtain ⟨final, hfinal⟩ := Part.dom_iff_mem.mp hdom
  obtain ⟨hreaches, hlast⟩ := StateTransition.mem_eval.mp hfinal
  obtain ⟨changed, hphase⟩ := hroot final hreaches
  rw [State.step?_of_misfiled hphase hfound hname] at hlast
  cases hlast

end Machine

namespace Theory

variable {theory : Theory} {specification : Specification} {term : Term}

/-- A term that was handed over is not handed on before a rule has fired at its
    root. -/
theorem not_handsOver_of_justHanded {budget : Budget} {state : State}
    (h : theory.Leads (.begin specification term budget) state) (handed : state.JustHanded) :
    ¬ state.HandsOver := by
  obtain ⟨owner, term', hphase, hframes⟩ := handed
  rintro ⟨owner', term'', changed', hphase', hsort⟩
  rw [hphase, Phase.root.injEq] at hphase'
  obtain ⟨rfl, rfl, _⟩ := hphase'
  rcases Relation.ReflTransGen.cases_tail h with heq | ⟨before, _, hstep⟩
  · -- at the beginning no pass waits
    rw [heq] at hframes
    exact absurd rfl hframes
  · have hfound := State.lookup_of_justHanded hstep hphase hframes
    exact hsort (lookup_name hfound).symm

/-- The outcome of a normalization under a limit, and the number of its passes. -/
theorem exists_end_of_limit (theory : Theory) (specification : Specification) (term : Term)
    {budget : Budget} {limit : Nat} (hlimit : budget.limit = some limit) :
    ∃ final ∈ StateTransition.eval (State.step? theory.lookup) (.begin specification term budget),
      ∃ outcome, final.phase = .ended outcome ∧ final.passes ≤ limit - budget.used + 1 := by
  obtain ⟨final, hleads, _, hpasses, hfinal⟩ := theory.normalize_leads 0 budget specification term
  rcases hfinal with ⟨outcome, _, hended⟩ | ⟨_, _, hnone, _⟩
  · refine ⟨final, mem_eval_of_leads hleads hended, outcome, hended, ?_⟩
    have hwithin := hleads.grows.within limit hlimit
    simp only [State.begin] at hwithin
    omega
  · rw [hlimit] at hnone
    cases hnone

/-- Whatever the rules are, normalization under a limit ends: with an outcome,
    which is that of the function, and after at most as many passes as there are
    firings left, and one. At no time is a term that was handed over handed on
    before a rule has fired at its root. -/
theorem limited_normalization_terminates (theory : Theory) (specification : Specification)
    (term : Term) (limit used : Nat) :
    (∃ final ∈ StateTransition.eval (State.step? theory.lookup)
        (.begin specification term ⟨some limit, used⟩),
      ∃ outcome, final.phase = .ended outcome ∧ final.passes ≤ limit - used + 1 ∧
        ∀ fuel, theory.normalize fuel ⟨some limit, used⟩ specification term =
          (outcome.mapError .failed, final.budget)) ∧
    ∀ state, theory.Leads (.begin specification term ⟨some limit, used⟩) state →
      state.JustHanded → ¬ state.HandsOver := by
  constructor
  · have hlimit : (⟨some limit, used⟩ : Budget).limit = some limit := rfl
    obtain ⟨final, hfinal, outcome, hended, hpasses⟩ :=
      theory.exists_end_of_limit specification term hlimit
    refine ⟨final, hfinal, outcome, hended, hpasses, fun fuel => ?_⟩
    exact normalize_of_ends ⟨final, hfinal, hended, rfl⟩ fuel (by simp)
  · intro state h handed
    exact not_handsOver_of_justHanded h handed

end Theory

end Equational
