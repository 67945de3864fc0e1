import Equational.Proofs.Term.Matching
import Equational.Specification.Basic

/-! # Repeated variables

    Where a variable stands in a pattern again, the term that it was bound to
    first should stand in the candidate again. Matching asks for less there: the
    bound term is matched as a pattern of its own, without bindings, and if it
    has variables these match anything. They are variables of the candidate, so
    this concerns candidates with variables only.

    * Such a candidate can be matched though it is no instance of the pattern, and
      a rule can rewrite it though the rule does not apply
      (`repeated_variable_matches_another`).
    * What a match always gives is an instance of the pattern that **covers** the
      candidate: the candidate has other terms in place of some variables, at each
      of their places on its own. It is the candidate itself exactly when the
      candidate is an instance, as it is when the terms of all repeated variables
      are ground (`substitute_after_match`).
-/

namespace Equational

namespace Term

/-! ## Covering -/

/-- `Covers t u`: the term `u` is `t` with any terms in place of its variables, where
    one variable may be replaced by different terms at different places. -/
inductive Covers : Term → Term → Prop where
  | var (name sort : String) (u : Term) : Covers (.var name sort) u
  | app (operation sort : String) {ts us : List Term} :
      List.Forall₂ Covers ts us → Covers (.app operation sort ts) (.app operation sort us)

theorem Covers.refl (t : Term) : Covers t t := by
  induction t using Term.induct with
  | var name sort => exact .var name sort _
  | app operation sort arguments ih => exact .app operation sort (List.forall₂_same.mpr ih)

/-- A pattern covers what it matches. -/
theorem covers_of_match? {pattern candidate : Term} {bindings behind : Bindings}
    (h : pattern.match? bindings candidate = some behind) : pattern.Covers candidate := by
  refine match?_induct (fun pattern _ candidate _ => pattern.Covers candidate)
    (fun patterns _ candidates _ => List.Forall₂ Covers patterns candidates)
    ?fresh ?bound ?app ?nil ?cons h
  case fresh =>
    intro name sort bindings candidate _
    exact .var name sort candidate
  case bound =>
    intro name sort bindings candidate term inner _ _
    exact .var name sort candidate
  case app =>
    intro operation sort patterns bindings arguments behind _ ih
    exact .app operation sort ih
  case nil =>
    intro bindings
    exact .nil
  case cons =>
    intro pattern patterns bindings candidate candidates between behind _ _ ihFirst ihRest
    exact .cons ihFirst ihRest

/-- So does the instance of the pattern under the bindings that it leaves: in this,
    other terms stand at the places of variables that were met again. -/
theorem instantiate_covers {pattern candidate : Term} {bindings behind : Bindings}
    (h : pattern.match? bindings candidate = some behind) {assignment : String → Term}
    (agrees : behind.Agrees assignment) : (pattern.instantiate assignment).Covers candidate := by
  revert agrees
  refine match?_induct
    (fun pattern _ candidate behind => behind.Agrees assignment →
      (pattern.instantiate assignment).Covers candidate)
    (fun patterns _ candidates behind => behind.Agrees assignment →
      List.Forall₂ Covers (instantiateAll assignment patterns) candidates)
    ?fresh ?bound ?app ?nil ?cons h
  case fresh =>
    intro name sort bindings candidate _ agrees
    rw [instantiate, agrees name candidate (Bindings.get?_insert_self bindings name candidate)]
    exact .refl candidate
  case bound =>
    -- the bound term was a pattern for what stands here
    intro name sort bindings candidate term inner hname hinner agrees
    rw [instantiate, agrees name term hname]
    exact covers_of_match? hinner
  case app =>
    intro operation sort patterns bindings arguments behind _ ih agrees
    exact .app operation sort (ih agrees)
  case nil =>
    intro bindings _
    exact .nil
  case cons =>
    intro pattern patterns bindings candidate candidates between behind _ hextends
      ihFirst ihRest agrees
    exact .cons (ihFirst (hextends.agrees agrees)) (ihRest agrees)

/-! ## Substitution after a match -/

/-- What is substituted in a pattern after it has matched is the candidate exactly
    if the candidate is an instance of the pattern. In any case the substitution
    gives a term, and this covers the candidate. It is the candidate if each
    variable that stands in the pattern more than once is bound to a ground term. -/
theorem substitute_after_match (pattern candidate : Term) (behind : Bindings)
    (h : pattern.match? ∅ candidate = some behind) :
    ∃ result, pattern.substitute behind = .ok result ∧ result.Covers candidate ∧
      (result = candidate ↔ ∃ assignment, pattern.instantiate assignment = candidate) ∧
      ((∀ name term, 1 < pattern.variableNames.count name → behind.get? name = some term →
        term.isGround) → result = candidate) := by
  have agrees := behind.agrees_assignment
  have hbound : ∀ name ∈ pattern.variableNames, behind.contains name := fun name hname =>
    (contains_of_match? h name).mpr (.inl hname)
  refine ⟨pattern.instantiate behind.assignment, ?_, instantiate_covers h agrees, ?_, ?_⟩
  · exact (substitute_eq_ok_iff agrees).mpr ⟨hbound, rfl⟩
  · constructor
    · intro hinstance
      exact ⟨behind.assignment, hinstance⟩
    · -- the match has bound each variable to what it is assigned
      rintro ⟨assignment, rfl⟩
      obtain ⟨found, hfound, hget⟩ := pattern.match?_instance (Bindings.agrees_empty assignment)
      rw [h, Option.some.injEq] at hfound
      apply instantiate_congr
      intro name hname
      apply agrees
      rw [hfound, hget, if_pos hname]
  · intro ground
    refine instantiate_of_match? h agrees fun name hname hagain => ?_
    obtain ⟨term, hterm⟩ := Option.isSome_iff_exists.mp (hbound name hname)
    rw [agrees name term hterm]
    rcases hagain with hempty | hcount
    · simp [Bindings.contains] at hempty
    · exact ground name term hcount hterm

/-- The pattern `eq(X, X, Z)` matches two zeros and a variable, and is that term with
    what it has bound: only `Z` is bound to a variable. -/
theorem equal_pair_restored :
    let zero : Term := .constant "zero" "Number"
    let triple : Term → Term → Term → Term := fun s t u => .app "eq" "bool" [s, t, u]
    let pattern := triple (.var "X" "Number") (.var "X" "Number") (.var "Z" "Number")
    let candidate := triple zero zero (.var "Y" "Number")
    let behind := ((∅ : Bindings).insert "X" zero).insert "Z" (.var "Y" "Number")
    pattern.match? ∅ candidate = some behind ∧ pattern.substitute behind = .ok candidate := by
  intro zero triple pattern candidate behind
  have hmatch : pattern.match? ∅ candidate = some behind := rfl
  obtain ⟨result, hresult, -, -, hrestored⟩ :=
    substitute_after_match pattern candidate behind hmatch
  have heq : result = candidate := by
    apply hrestored
    intro name term hcount hterm
    -- of the two bound names, the other one stands in the pattern once
    simp only [behind, Bindings.get?_insert] at hterm
    split at hterm
    · rename_i hname
      rw [hname] at hcount
      exact absurd hcount (by decide)
    · split at hterm <;> cases hterm
      rfl
  rw [heq] at hresult
  exact ⟨hmatch, hresult⟩

/-- The pattern `eq(X, X)` matches a variable and zero, and is another term with what
    it has bound. A rule for equal terms rewrites this pair, though it is no instance
    of the pattern. -/
theorem repeated_variable_matches_another :
    let zero : Term := .constant "zero" "Number"
    let y : Term := .var "Y" "Number"
    let pair : Term → Term → Term := fun s t => .app "eq" "bool" [s, t]
    let pattern := pair (.var "X" "Number") (.var "X" "Number")
    let rule : Rule := ⟨pattern, .constant "true" "bool", rfl⟩
    (∅ : Bindings).attempt pattern (pair y zero) = (true, (∅ : Bindings).insert "X" y) ∧
      pattern.substitute ((∅ : Bindings).insert "X" y) = .ok (pair y y) ∧
      pair y y ≠ pair y zero ∧
      rule.rewrite? (pair y zero) = .ok (some (.constant "true" "bool")) := by
  intro zero y pair pattern rule
  refine ⟨rfl, rfl, ?_, rfl⟩
  decide

end Term

end Equational
