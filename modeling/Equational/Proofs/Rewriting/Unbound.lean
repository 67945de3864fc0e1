import Equational.Proofs.Rewriting.Derivation
import Equational.Proofs.Specification.Numbers
import Equational.Proofs.Term.Matching

/-! # Variables without a term

    A rule replaces the variables of its template by what the match of its
    pattern has bound them to. A match binds the variables of the pattern and no
    others, whatever it is a match with. So what a rule does to a term that its
    pattern matches is read off the rule alone (`rewrite?_of_match?`):

    * if the pattern has all variables of the template, the rule gives a term;
    * if not, it fails, and names the first variable of the template, from left
      to right, that the pattern lacks. Such a variable is **fresh**.

    A run passes on the errors of the rules at the places that it comes by. So a
    variable without a term is always a fresh one of some rule
    (`fresh_of_normalize`), and where no rule has a fresh variable no run fails in
    this way.
-/

namespace Equational

/-! ## Rules -/

namespace Rule

variable {rule : Rule} {term : Term}

/-- The first variable of the template, with its sort, that the pattern lacks. -/
def fresh? (rule : Rule) : Option (String × String) :=
  rule.template.occurrences.find? fun v => !rule.pattern.variableNames.contains v.1

theorem fresh?_eq_none_iff :
    rule.fresh? = none ↔
      ∀ name ∈ rule.template.variableNames, name ∈ rule.pattern.variableNames := by
  rw [Term.forall_variableNames]
  simp [fresh?]

/-- The fresh variable stands behind variables of the pattern only. -/
theorem fresh?_eq_some_iff {name sort : String} :
    rule.fresh? = some (name, sort) ↔
      ∃ before after, rule.template.occurrences = before ++ (name, sort) :: after ∧
        (∀ v ∈ before, v.1 ∈ rule.pattern.variableNames) ∧
        name ∉ rule.pattern.variableNames := by
  rw [fresh?, List.find?_eq_some_iff_append]
  constructor
  · rintro ⟨hfresh, before, after, hoccurrences, hbefore⟩
    exact ⟨before, after, hoccurrences, by simpa using hbefore, by simpa using hfresh⟩
  · rintro ⟨before, after, hoccurrences, hbefore, hfresh⟩
    exact ⟨by simpa using hfresh, before, after, hoccurrences, by simpa using hbefore⟩

/-- After a match of the pattern the fresh variables are the ones without a term. -/
theorem unbound?_of_match? {behind : Bindings}
    (h : rule.pattern.match? ∅ term = some behind) :
    behind.unbound? rule.template.occurrences = rule.fresh? := by
  have hcontains : ∀ name, behind.contains name = rule.pattern.variableNames.contains name := by
    intro name
    rw [Bool.eq_iff_iff, Term.contains_of_match? h name, List.contains_iff_mem]
    simp [Bindings.contains]
  simp only [Bindings.unbound?, fresh?, hcontains]

/-- What a rule does to a term that it matches. -/
theorem rewrite?_of_match? {behind : Bindings}
    (h : rule.pattern.match? ∅ term = some behind) :
    rule.rewrite? term =
      match rule.fresh? with
      | some (name, sort) => .error (.unboundVariable name sort)
      | none => .ok (some (rule.template.instantiate behind.assignment)) := by
  unfold rewrite?
  simp only [h]
  rw [Term.substitute_eq behind.agrees_assignment, unbound?_of_match? h]
  cases rule.fresh? with
  | none => rfl
  | some v => rfl

/-- A rule that gives a term has matched, has no fresh variable, and gives its
    template under what was bound. -/
theorem rewrite?_eq_some {result : Term} (h : rule.rewrite? term = .ok (some result)) :
    ∃ behind, rule.pattern.match? ∅ term = some behind ∧
      (∀ name ∈ rule.template.variableNames, name ∈ rule.pattern.variableNames) ∧
      rule.template.instantiate behind.assignment = result := by
  cases hmatch : rule.pattern.match? ∅ term with
  | none => simp [rewrite?, hmatch] at h
  | some behind =>
    rw [rewrite?_of_match? hmatch] at h
    cases hfresh : rule.fresh? with
    | none =>
      rw [hfresh] at h
      cases h
      exact ⟨behind, rfl, fresh?_eq_none_iff.mp hfresh, rfl⟩
    | some v =>
      rw [hfresh] at h
      cases h

/-- A rule fails at its fresh variable. -/
theorem rewrite?_eq_error {error : RewriteError} (h : rule.rewrite? term = .error error) :
    ∃ name sort, rule.fresh? = some (name, sort) ∧ error = .unboundVariable name sort := by
  cases hmatch : rule.pattern.match? ∅ term with
  | none =>
    simp only [rewrite?, hmatch] at h
    cases h
  | some behind =>
    rw [rewrite?_of_match? hmatch] at h
    cases hfresh : rule.fresh? with
    | none =>
      rw [hfresh] at h
      cases h
    | some v =>
      rw [hfresh] at h
      cases h
      exact ⟨v.1, v.2, rfl, rfl⟩

/-- Of several rules the one that fails is the first that matches. -/
theorem rewriteFirst?_eq_error {rules : List Rule} {error : RewriteError}
    (h : rewriteFirst? term rules = .error error) :
    ∃ rule ∈ rules, rule.rewrite? term = .error error := by
  induction rules with
  | nil => simp [rewriteFirst?] at h
  | cons rule rules ih =>
    unfold rewriteFirst? at h
    cases hrule : rule.rewrite? term with
    | error other =>
      simp only [hrule] at h
      cases h
      exact ⟨rule, by simp, hrule⟩
    | ok found =>
      cases found with
      | none =>
        simp only [hrule] at h
        obtain ⟨other, hother, herror⟩ := ih h
        exact ⟨other, by simp [hother], herror⟩
      | some next => simp [hrule] at h

end Rule

/-! ## Runs -/

namespace Theory

variable {theory : Theory} {specification : Specification}

/-- A term is clear at its root if the rules of its sort have no fresh variables. -/
theorem clear_of_covered (registered : theory.Registered specification)
    (covered : ∀ rule ∈ specification.rules,
      ∀ name ∈ rule.template.variableNames, name ∈ rule.pattern.variableNames)
    {t : Term} (hsort : t.sort = specification.name) : theory.Clear t := by
  cases hstep : specification.step? t with
  | ok found =>
    refine ⟨specification, found, ?_, hstep⟩
    rw [hsort]
    exact registered
  | error error =>
    obtain ⟨rule, hrule, hfailed⟩ := Rule.rewriteFirst?_eq_error hstep
    obtain ⟨name, sort, hfresh, -⟩ := Rule.rewrite?_eq_error hfailed
    rw [Rule.fresh?_eq_none_iff.mpr (covered rule hrule)] at hfresh
    cases hfresh

/-- A variable without a term is a fresh one of a rule of the theory. -/
theorem fresh_of_normalize (registered : theory.Registered specification) {fuel : Nat}
    {budget : Budget} {term : Term} {name sort : String}
    (h : (theory.normalize fuel budget specification term).1 =
      .error (.failed (.rewrite (.unboundVariable name sort)))) :
    ∃ owner, theory.Registered owner ∧ ∃ rule ∈ owner.rules, rule.fresh? = some (name, sort) := by
  obtain ⟨k, u, -, -, -, herror⟩ :=
    normalizeWithin_follows registered (budget.allowance fuel) term
  obtain ⟨found, hrun, hfound⟩ := normalize_eq_error_iff.mp h
  obtain ⟨v, -, halts⟩ := herror found hrun
  cases halts with
  | undefined => cases hfound
  | unbound hlookup hstep =>
    cases hfound
    obtain ⟨rule, hrule, hfailed⟩ := Rule.rewriteFirst?_eq_error hstep
    obtain ⟨name, sort, hfresh, heq⟩ := Rule.rewrite?_eq_error hfailed
    cases heq
    exact ⟨_, registered_of_lookup? hlookup, rule, hrule, hfresh⟩
  | exhausted =>
    -- a limit that is reached is another error, and an end of fuel is none
    unfold Budget.explain at hfound
    cases hlimit : budget.limit with
    | none => simp [hlimit] at hfound
    | some limit => simp [hlimit] at hfound

/-- A variable without a term comes from a rule whose template has a variable that
    its pattern lacks. Such a rule fails at every term that its pattern matches,
    and names the first of these variables; every other rule gives a term there.
    So no normalization in a theory without such rules fails in this way. -/
theorem unbound_only_if_fresh :
    (∀ (rule : Rule) (term : Term), (rule.pattern.match? ∅ term).isSome →
      ((∃ result, rule.rewrite? term = .ok (some result)) ↔
        ∀ name ∈ rule.template.variableNames, name ∈ rule.pattern.variableNames) ∧
      ((∃ name ∈ rule.template.variableNames, name ∉ rule.pattern.variableNames) →
        ∃ before name sort after,
          rule.template.occurrences = before ++ (name, sort) :: after ∧
          (∀ v ∈ before, v.1 ∈ rule.pattern.variableNames) ∧
          name ∉ rule.pattern.variableNames ∧
          rule.rewrite? term = .error (.unboundVariable name sort))) ∧
    ∀ theory : Theory,
      (∀ specification, theory.Registered specification → ∀ rule ∈ specification.rules,
        ∀ name ∈ rule.template.variableNames, name ∈ rule.pattern.variableNames) →
      ∀ specification, theory.Registered specification →
        ∀ (fuel : Nat) (budget : Budget) (term : Term) (name sort : String),
          (theory.normalize fuel budget specification term).1 ≠
            .error (.failed (.rewrite (.unboundVariable name sort))) := by
  constructor
  · intro rule term hmatched
    obtain ⟨behind, hmatch⟩ := Option.isSome_iff_exists.mp hmatched
    have hrewrite := Rule.rewrite?_of_match? hmatch
    rw [← Rule.fresh?_eq_none_iff]
    cases hfresh : rule.fresh? with
    | none =>
      rw [hfresh] at hrewrite
      refine ⟨iff_of_true ⟨_, hrewrite⟩ rfl, ?_⟩
      rintro ⟨name, hname, hlacks⟩
      exact absurd (Rule.fresh?_eq_none_iff.mp hfresh name hname) hlacks
    | some v =>
      rw [hfresh] at hrewrite
      obtain ⟨before, after, hoccurrences, hbefore, hlacks⟩ := Rule.fresh?_eq_some_iff.mp hfresh
      refine ⟨iff_of_false ?_ nofun, fun _ => ?_⟩
      · rintro ⟨result, hresult⟩
        rw [hrewrite] at hresult
        cases hresult
      · exact ⟨before, v.1, v.2, after, hoccurrences, hbefore, hlacks, hrewrite⟩
  · intro theory covered specification registered fuel budget term name sort h
    obtain ⟨owner, howner, rule, hrule, hfresh⟩ := fresh_of_normalize registered h
    rw [Rule.fresh?_eq_none_iff.mpr (covered owner howner rule hrule)] at hfresh
    cases hfresh

/-- The rule `f(X) = g(X, Y, Z)` has no term for `Y`, also where its pattern matches
    a term with a variable. The first rule of numbers gives a term there, and
    numbers are normalized without such an error. -/
theorem fresh_variable_named :
    let x : Term := .var "X" "s"
    let copied : Rule := ⟨.app "f" "s" [x], .app "g" "s" [x, .var "Y" "t", .var "Z" "s"], rfl⟩
    let added : Rule := ⟨.plus (.ofCount 0) (.var "Y" numberSort), .var "Y" numberSort, rfl⟩
    let theory : Theory := (∅ : Theory).register .numbers
    (∃ before name sort after,
      copied.template.occurrences = before ++ (name, sort) :: after ∧
      (∀ v ∈ before, v.1 ∈ copied.pattern.variableNames) ∧
      name ∉ copied.pattern.variableNames ∧
      copied.rewrite? (.app "f" "s" [.var "A" "s"]) = .error (.unboundVariable name sort)) ∧
    copied.rewrite? (.app "f" "s" [.var "A" "s"]) = .error (.unboundVariable "Y" "t") ∧
    (∃ result, added.rewrite? (.plus (.ofCount 0) (.var "A" "s")) = .ok (some result)) ∧
    (theory.normalize 9 ⟨some 5, 3⟩ .numbers (.plus (.ofCount 1) (.var "A" "s"))).1 ≠
      .error (.failed (.rewrite (.unboundVariable "A" "s"))) := by
  intro x copied added theory
  obtain ⟨hrules, hruns⟩ := unbound_only_if_fresh
  have registered : theory.Registered .numbers := registered_register _ _
  have covered : ∀ specification, theory.Registered specification →
      ∀ rule ∈ specification.rules,
        ∀ name ∈ rule.template.variableNames, name ∈ rule.pattern.variableNames := by
    intro specification h
    rcases registered_of_register h with rfl | h
    · decide
    · exact absurd h not_registered_empty
  have hcopied := (hrules copied (.app "f" "s" [.var "A" "s"]) rfl).2
  have hadded := (hrules added (.plus (.ofCount 0) (.var "A" "s")) rfl).1
  exact ⟨hcopied ⟨"Y", by decide, by decide⟩, rfl, hadded.mpr (by decide),
    hruns theory covered .numbers registered 9 ⟨some 5, 3⟩ _ "A" "s"⟩

end Theory

end Equational
