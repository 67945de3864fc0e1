import Equational.Proofs.Machine.Outcome
import Equational.Proofs.Rewriting.Contraction
import Equational.Proofs.Rewriting.Unbound
import Equational.Proofs.Sorting.WellSorted

/-! # Rewriting preserves sorts

    A rule preserves sorts when, for some sorts of its variables, both sides are
    well-sorted terms for values of one sort, and the template has no variable
    that the pattern lacks (`Theory.SortPreserving`). Matching looks at no sort
    of a variable; still, if all rules preserve sorts:

    * **Steps**: what a rule makes of a well-sorted term is well-sorted, for
      values of the same sort (`Fires.hasSort`), and the same holds at any place
      of a term (`hasSort_of_inContext`) and along derivations.
    * **No failure**: a run on a well-sorted term does not come upon an undefined
      sort or a variable that it has no term for. If it has no result it has used
      up its allowance (`normalizeWithin_unfailing`).

    So the normalization of a well-sorted term ends with a well-sorted term for a
    value of the same sort, unless its limit ends it or it goes on forever
    (`ends_hasSort`).
-/

namespace Equational

namespace Theory

variable {theory : Theory} {specification : Specification}

/-! ## Steps -/

/-- For some sorts of the variables both sides are well-sorted terms for values
    of one sort, and the pattern has all variables of the template. -/
def SortPreserving (theory : Theory) (rule : Rule) : Prop :=
  ∃ sorts, theory.WellSorted (theory.sortUnder sorts) rule.pattern ∧
    theory.WellSorted (theory.sortUnder sorts) rule.template ∧
    theory.sortUnder sorts rule.pattern = theory.sortUnder sorts rule.template ∧
    ∀ name ∈ rule.template.variableNames, name ∈ rule.pattern.variableNames

/-- All rules of the theory preserve sorts, and the result sorts of all its
    operations are specified. -/
structure PreservesSorts (theory : Theory) : Prop where
  rules : ∀ specification, theory.Registered specification →
    ∀ rule ∈ specification.rules, theory.SortPreserving rule
  results : ∀ specification, theory.Registered specification →
    ∀ operation ∈ specification.operations, theory.contains operation.resultSort

/-- What an instance of a rule's pattern is a term for can be read off the
    pattern, since that is an application. -/
theorem sortOf_pattern (rule : Rule) (sorts : String → String) (assignment : String → Term) :
    theory.sortOf (rule.pattern.instantiate assignment) = theory.sortUnder sorts rule.pattern := by
  have headed := rule.headed
  cases hpattern : rule.pattern with
  | var name sort => simp [hpattern, Term.isApplication] at headed
  | app operation sort arguments => rfl

/-- A firing keeps the sort of the value. -/
theorem Fires.hasSort {t u : Term} {sort : String} (preserves : theory.PreservesSorts)
    (hfires : theory.Fires t u) (h : theory.HasSort t sort) : theory.HasSort u sort := by
  obtain ⟨hground, owner, before, rule, after, assignment, hlookup, hrules, rfl, rfl, _⟩ :=
    hfires.contracts h.ground
  obtain ⟨sorts, hpattern, htemplate, hsame, hcovered⟩ :=
    preserves.rules owner (registered_of_lookup? hlookup) rule (by simp [hrules])
  have hsort : theory.sortOf (rule.pattern.instantiate assignment) =
      theory.sortUnder sorts rule.pattern := sortOf_pattern rule sorts assignment
  -- the variables of the template are among those of the pattern
  have hassigned : ∀ name ∈ rule.template.variableNames,
      theory.WellSorted theory.sortOf (assignment name) ∧
        theory.sortOf (assignment name) = sorts name := by
    intro name hname
    exact hpattern.assigned h.wellSorted hsort name (hcovered name hname)
  refine ⟨hground, htemplate.instantiate hassigned, ?_⟩
  calc theory.sortOf (rule.template.instantiate assignment)
      = theory.sortUnder sorts rule.template :=
        sortOf_instantiate fun name hname => (hassigned name hname).2
    _ = theory.sortUnder sorts rule.pattern := hsame.symm
    _ = theory.sortOf (rule.pattern.instantiate assignment) := hsort.symm
    _ = sort := h.sortOf_eq

/-- A firing at any place keeps the sort of the value. -/
theorem hasSort_of_inContext {t u : Term} {sort : String} (preserves : theory.PreservesSorts)
    (hstep : Term.InContext theory.Fires t u) (h : theory.HasSort t sort) :
    theory.HasSort u sort := by
  induction hstep generalizing sort with
  | root hfires => exact hfires.hasSort preserves h
  | @argument t u operation sort' before after _ ih =>
    obtain ⟨⟨declared, hdeclared, hsorts⟩, _⟩ := wellSorted_app.mp h.wellSorted
    have hresult : declared.resultSort = sort := by
      rw [← h.sortOf_eq, sortOf_app hdeclared]
    have hargument := ih (h.argument (a := t) (by simp))
    rw [← hresult]
    apply hasSort_app hdeclared
    · rw [← hsorts]
      simp [hargument.sortOf_eq]
    · intro a ha
      rcases List.mem_append.mp ha with ha | ha
      · exact ⟨_, h.argument (by simp [ha])⟩
      · rcases List.mem_cons.mp ha with rfl | ha
        · exact ⟨_, hargument⟩
        · exact ⟨_, h.argument (by simp [ha])⟩

/-- So does a whole derivation. -/
theorem hasSort_of_derivation {k : Nat} {t u : Term} {sort : String}
    (preserves : theory.PreservesSorts)
    (hderivation : Derivation (Term.InContext theory.Fires) k t u) (h : theory.HasSort t sort) :
    theory.HasSort u sort := by
  exact hderivation.invariant (fun _ _ ht hstep => hasSort_of_inContext preserves hstep ht) h

/-! ## No failure -/

/-- The rules decide what becomes of a well-sorted term. -/
theorem HasSort.clear {t : Term} {sort : String} (preserves : theory.PreservesSorts)
    (h : theory.HasSort t sort) : theory.Clear t := by
  obtain ⟨owner, hlookup⟩ := h.exists_lookup?
  have registered := registered_of_lookup? hlookup
  refine clear_of_covered registered ?_ (lookup?_name hlookup).symm
  intro rule hrule
  obtain ⟨_, _, _, _, covered⟩ := preserves.rules owner registered rule hrule
  exact covered

/-- What stands in a well-sorted term is well-sorted. -/
theorem HasSort.subterm {t v : Term} {sort : String} (hv : v.Subterm t)
    (h : theory.HasSort t sort) : ∃ sort', theory.HasSort v sort' := by
  induction hv generalizing sort with
  | refl => exact ⟨sort, h⟩
  | argument operation sort' ha _ ih => exact ih (h.argument ha)

end Theory

/-- The run was not given up for an error. -/
def Run.Unfailing {α : Type} (run : Run α) : Prop :=
  ∀ error, run.outcome ≠ .error (.failed error)

namespace Theory

variable {theory : Theory} {specification : Specification}

/-- A run stops in a term that it has derived, and that is well-sorted too. -/
theorem normalizeWithin_unfailing (preserves : theory.PreservesSorts)
    (registered : theory.Registered specification) {term : Term} {sort : String}
    (h : theory.HasSort term sort) (n : Nat) :
    (theory.normalizeWithin specification n term).Unfailing := by
  intro error hrun
  obtain ⟨k, u, -, hderivation, -, herror⟩ := normalizeWithin_follows registered n term
  obtain ⟨v, hv, halts⟩ := herror _ hrun
  obtain ⟨sort', hvalue⟩ := (hasSort_of_derivation preserves hderivation h).subterm hv
  obtain ⟨hreason, -, -⟩ := halts.of_clear (hvalue.clear preserves)
  cases hreason

/-! ## Normalization -/

/-- The normalization of a well-sorted term gives a well-sorted term for a value
    of the same sort, unless it reaches its limit or uses up its fuel. -/
theorem normalize_hasSort (preserves : theory.PreservesSorts)
    (registered : theory.Registered specification) {term : Term} {sort : String}
    (h : theory.HasSort term sort) (fuel : Nat) (budget : Budget) :
    (∃ result, (theory.normalize fuel budget specification term).1 = .ok result ∧
      theory.HasSort result sort) ∨
    (∃ limit owner, budget.limit = some limit ∧
      (theory.normalize fuel budget specification term).1 =
        .error (.failed (.rewrite (.stepLimitExceeded owner limit)))) ∨
    (budget.limit = none ∧ ∃ owner,
      (theory.normalize fuel budget specification term).1 = .error (.exhausted owner)) := by
  cases hnormalize : (theory.normalize fuel budget specification term).1 with
  | ok result =>
    obtain ⟨k, _, hderivation⟩ := normalize_derivation registered hnormalize
    exact .inl ⟨result, rfl, hasSort_of_derivation preserves hderivation h⟩
  | error reason =>
    have hunfailing := normalizeWithin_unfailing preserves registered h (budget.allowance fuel)
    obtain ⟨found, hrun, rfl⟩ := normalize_eq_error_iff.mp hnormalize
    cases found with
    | failed error => exact absurd hrun (hunfailing error)
    | exhausted owner =>
      unfold Budget.explain
      cases hlimit : budget.limit with
      | none => exact .inr (.inr ⟨rfl, owner, rfl⟩)
      | some limit => exact .inr (.inl ⟨limit, owner, rfl, rfl⟩)

/-- So it ends with such a term, or at the limit, or it goes on forever without
    one. -/
theorem ends_hasSort (preserves : theory.PreservesSorts)
    (registered : theory.Registered specification) {term : Term} {sort : String}
    (h : theory.HasSort term sort) (budget : Budget) :
    (∃ result behind, theory.HasSort result sort ∧
      theory.Ends budget specification term (.ok result) behind) ∨
    (∃ limit owner behind, budget.limit = some limit ∧ theory.Ends budget specification term
      (.error (.rewrite (.stepLimitExceeded owner limit))) behind) ∨
    (budget.limit = none ∧ theory.RunsForever budget specification term) := by
  have hnormalize := fun fuel => normalize_hasSort preserves registered h fuel budget
  rcases theory.ends_or_runsForever budget specification term with
    ⟨outcome, behind, hends⟩ | hforever
  · obtain ⟨fuel, hrun⟩ := ends_iff.mp hends
    rcases hnormalize fuel with
      ⟨result, hok, hresult⟩ | ⟨limit, owner, hlimit, hfailed⟩ | ⟨_, owner, hstop⟩
    · rw [hrun] at hok
      have houtcome : outcome = .ok result := mapError_failed_injective hok
      rw [houtcome] at hends
      exact .inl ⟨result, behind, hresult, hends⟩
    · rw [hrun] at hfailed
      have houtcome : outcome = .error (.rewrite (.stepLimitExceeded owner limit)) :=
        mapError_failed_injective hfailed
      rw [houtcome] at hends
      exact .inr (.inl ⟨limit, owner, behind, hlimit, hends⟩)
    · -- an outcome is not an exhausted run
      rw [hrun] at hstop
      cases outcome with
      | ok result => cases hstop
      | error error => cases hstop
  · obtain ⟨owner, hstop⟩ := runsForever_iff.mp hforever 0
    rcases hnormalize 0 with ⟨result, hok, _⟩ | ⟨limit, _, _, hfailed⟩ | ⟨hlimit, _⟩
    · rw [hstop] at hok
      cases hok
    · rw [hstop] at hfailed
      cases hfailed
    · exact .inr (.inr ⟨hlimit, hforever⟩)

/-! ## Numbers -/

/-- Both rules for sums preserve sorts. -/
theorem sortPreserving_numbers (registered : theory.Registered .numbers) :
    ∀ rule ∈ Specification.numbers.rules, theory.SortPreserving rule := by
  have hzero := declared?_zero registered
  have hinc := declared?_inc registered
  have hadd := declared?_add registered
  intro rule hrule
  refine ⟨fun _ => numberSort, ?_⟩
  rcases List.mem_pair.mp hrule with rfl | rfl
  · simp [Term.plus, Term.ofCount_zero, Term.constant, wellSorted_app, hzero, hadd, sortUnder,
      sortOf_app hzero, sortOf_app hadd, Term.variableNames, Term.variableNamesAll]
  · simp [Term.plus, Term.increment, wellSorted_app, hinc, hadd, sortUnder, sortOf_app hinc,
      sortOf_app hadd, Term.variableNames, Term.variableNamesAll]

/-- The theory of numbers preserves sorts. -/
theorem preservesSorts_numbers : ((∅ : Theory).register .numbers).PreservesSorts := by
  have registered := registered_register ∅ .numbers
  have hsole : ∀ specification, ((∅ : Theory).register .numbers).Registered specification →
      specification = .numbers := by
    intro specification h
    rcases registered_of_register h with heq | hempty
    · exact heq
    · exact absurd hempty not_registered_empty
  refine ⟨?_, ?_⟩
  · intro specification h
    rw [hsole specification h]
    exact sortPreserving_numbers registered
  · intro specification h
    rw [hsole specification h]
    intro operation hoperation
    have hresult : operation.resultSort = numberSort := by
      revert operation
      decide
    rw [hresult, contains, show lookup? _ numberSort = some .numbers from registered]
    rfl

end Theory

end Equational
