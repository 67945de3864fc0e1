import Equational.Proofs.Rewriting.Unbound
import Equational.Proofs.Specification.Numbers
import Mathlib

/-! # Contractions

    What a rewriting step is, apart from how a rule is found: at some place of
    the term an instance of a rule's pattern becomes the same instance of its
    template, by the first rule of its sort that has an instance there.

    On ground terms every firing is such a contraction, and it leaves a ground
    term. So normalization of a ground term is a sequence of contractions of
    ground terms, and the budget counts them (`normalize_contracts`).
-/

namespace Equational

namespace Rule

/-- A rule that leaves a term alone has no instance of its pattern there. -/
theorem pattern_ne_of_rewrite?_eq_none {rule : Rule} {term : Term}
    (h : rule.rewrite? term = .ok none) (assignment : String → Term) :
    rule.pattern.instantiate assignment ≠ term := by
  intro hinstance
  obtain ⟨behind, hmatch, _⟩ := rule.pattern.match?_instance (Bindings.agrees_empty assignment)
  rw [hinstance] at hmatch
  -- a match leaves two outcomes: the rewritten term, or an unbound variable
  rw [rewrite?_of_match? hmatch] at h
  cases hfresh : rule.fresh? with
  | none => simp [hfresh] at h
  | some v => simp [hfresh] at h

/-- A rule makes of a ground term, an instance of its pattern, the same instance
    of its template, which is ground too. -/
theorem rewrite?_ground {rule : Rule} {term result : Term}
    (h : rule.rewrite? term = .ok (some result)) (ground : term.isGround) :
    result.isGround ∧ ∃ assignment, rule.pattern.instantiate assignment = term ∧
      rule.template.instantiate assignment = result := by
  obtain ⟨behind, hmatch, hcovered, rfl⟩ := rewrite?_eq_some h
  have agrees := behind.agrees_assignment
  obtain ⟨hground, hpattern⟩ := Term.match?_sound hmatch ground Bindings.ground_empty
  refine ⟨?_, behind.assignment, hpattern _ agrees, rfl⟩
  -- every variable of the template is bound, and what is bound is ground
  apply Term.isGround_instantiate
  intro name hname
  obtain ⟨bound, hget⟩ := Option.isSome_iff_exists.mp
    ((Term.contains_of_match? hmatch name).mpr (.inl (hcovered name hname)))
  rw [agrees name bound hget]
  exact hground name bound hget

end Rule

namespace Theory

variable {theory : Theory} {specification : Specification}

/-- `t` is an instance of a rule's pattern, `u` the same instance of the rule's
    template, and no earlier rule of the sort of `t` has an instance of its
    pattern there. -/
def Contracts (theory : Theory) (t u : Term) : Prop :=
  ∃ owner before rule after assignment, theory.lookup? t.sort = some owner ∧
    owner.rules = before ++ rule :: after ∧
    rule.pattern.instantiate assignment = t ∧ rule.template.instantiate assignment = u ∧
    ∀ earlier ∈ before, ∀ other, earlier.pattern.instantiate other ≠ t

/-- A contraction at some place of a ground term that leaves a ground term. -/
def GroundStep (theory : Theory) (t u : Term) : Prop :=
  t.isGround ∧ u.isGround ∧ Term.InContext theory.Contracts t u

/-- On ground terms what fires is a contraction. -/
theorem Fires.contracts {t u : Term} (h : theory.Fires t u) (ground : t.isGround) :
    u.isGround ∧ theory.Contracts t u := by
  obtain ⟨owner, hlookup, hstep⟩ := h
  obtain ⟨before, rule, after, hrules, hbefore, hrule⟩ := Rule.rewriteFirst?_eq_some_iff.mp hstep
  obtain ⟨hu, assignment, hpattern, htemplate⟩ := Rule.rewrite?_ground hrule ground
  refine ⟨hu, owner, before, rule, after, assignment, hlookup, hrules, hpattern, htemplate, ?_⟩
  intro earlier hearlier
  exact Rule.pattern_ne_of_rewrite?_eq_none (hbefore earlier hearlier)

/-- So it is at every place of a ground term. -/
theorem contracts_of_inContext {t u : Term} (h : Term.InContext theory.Fires t u)
    (ground : t.isGround) : u.isGround ∧ Term.InContext theory.Contracts t u := by
  induction h with
  | root hfires =>
    obtain ⟨hu, hcontracts⟩ := hfires.contracts ground
    exact ⟨hu, .root hcontracts⟩
  | @argument t u operation sort before after _ ih =>
    rw [Term.isGround, Term.allGround_iff] at ground ⊢
    obtain ⟨hu, hstep⟩ := ih (ground t (by simp))
    refine ⟨fun a ha => ?_, .argument operation sort before after hstep⟩
    rcases List.mem_append.mp ha with ha | ha
    · exact ground a (by simp [ha])
    · rcases List.mem_cons.mp ha with rfl | ha
      · exact hu
      · exact ground a (by simp [ha])

/-- What fires at a ground root is one of the rules of its sort. -/
theorem Fires.exists_rule {t u : Term} (h : theory.Fires t u)
    (registered : theory.Registered specification) (hsort : t.sort = specification.name)
    (ground : t.isGround) :
    ∃ rule ∈ specification.rules, ∃ assignment,
      rule.pattern.instantiate assignment = t ∧ rule.template.instantiate assignment = u := by
  obtain ⟨-, owner, before, rule, after, assignment, hlookup, hrules, hpattern, htemplate, -⟩ :=
    h.contracts ground
  rw [hsort, registered, Option.some.injEq] at hlookup
  rw [hlookup, hrules]
  exact ⟨rule, by simp, assignment, hpattern, htemplate⟩

/-- A stable root is no instance of a pattern. -/
theorem Stable.pattern_ne {t : Term} (h : theory.Stable t)
    (registered : theory.Registered specification) (hsort : t.sort = specification.name)
    {rule : Rule} (hrule : rule ∈ specification.rules) (assignment : String → Term) :
    rule.pattern.instantiate assignment ≠ t := by
  obtain ⟨owner, hlookup, hrules⟩ := h
  rw [hsort, registered, Option.some.injEq] at hlookup
  rw [← hlookup] at hrules
  exact Rule.pattern_ne_of_rewrite?_eq_none (hrules rule hrule) assignment

/-- The normal form of a ground term is ground. -/
theorem isGround_of_normalize (registered : theory.Registered specification) {fuel : Nat}
    {budget : Budget} {term result : Term} (ground : term.isGround)
    (h : (theory.normalize fuel budget specification term).1 = .ok result) : result.isGround := by
  obtain ⟨k, -, hderivation⟩ := normalize_derivation registered h
  have kept : ∀ t u : Term, t.isGround → Term.InContext theory.Fires t u → u.isGround :=
    fun t u ht hstep => (contracts_of_inContext hstep ht).1
  exact hderivation.invariant kept ground

/-- Normalization of a ground term is a sequence of contractions of ground
    terms, as many as the budget is charged for. -/
theorem normalize_contracts (theory : Theory) (specification : Specification)
    (registered : theory.Registered specification) (fuel : Nat) (budget : Budget)
    (term result : Term) (ground : term.isGround)
    (h : (theory.normalize fuel budget specification term).1 = .ok result) :
    ∃ k, (theory.normalize fuel budget specification term).2 =
        { budget with used := budget.used + k } ∧
      Derivation theory.GroundStep k term result := by
  obtain ⟨k, hused, hderivation⟩ := normalize_derivation registered h
  exact ⟨k, hused,
    hderivation.restrict (fun t u ht hstep => contracts_of_inContext hstep ht) ground⟩

/-- The sum of one and zero is worked out in two contractions. -/
theorem one_plus_zero_contracts :
    let theory : Theory := (∅ : Theory).register .numbers
    theory.Registered .numbers ∧ (Term.plus (.ofCount 1) (.ofCount 0)).isGround ∧
      (theory.normalize 9 ⟨some 5, 3⟩ .numbers (.plus (.ofCount 1) (.ofCount 0))).1 =
        .ok (.ofCount 1) ∧
      Derivation theory.GroundStep 2 (.plus (.ofCount 1) (.ofCount 0)) (.ofCount 1) := by
  intro theory
  have registered : theory.Registered .numbers := registered_register _ _
  have ground : (Term.plus (.ofCount 1) (.ofCount 0)).isGround := rfl
  have hrun : theory.normalize 9 ⟨some 5, 3⟩ .numbers (.plus (.ofCount 1) (.ofCount 0)) =
      (.ok (.ofCount 1), ⟨some 5, 5⟩) := by cbv
  have hresult : (theory.normalize 9 ⟨some 5, 3⟩ .numbers (.plus (.ofCount 1) (.ofCount 0))).1 =
      .ok (.ofCount 1) := by rw [hrun]
  refine ⟨registered, ground, hresult, ?_⟩
  obtain ⟨k, hused, hderivation⟩ := normalize_contracts theory .numbers registered 9 ⟨some 5, 3⟩
    (.plus (.ofCount 1) (.ofCount 0)) (.ofCount 1) ground hresult
  have hk : k = 2 := by
    rw [hrun] at hused
    simp only [Budget.mk.injEq, true_and] at hused
    omega
  rw [← hk]
  exact hderivation

end Theory

end Equational
