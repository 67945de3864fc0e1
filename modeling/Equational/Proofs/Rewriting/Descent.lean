import Equational.Proofs.Rewriting.NormalForm
import Equational.Proofs.Sorting.SubjectReduction

/-! # Descending weights

    Normalization without limit need not end. It ends with a term when the terms
    that it may come by have **weights** (`Theory.Descends`):

    * each firing, at whatever place, leads to a term of a smaller weight, and
    * no place is one where an error could stop the run: its sort is specified and
      the rules of that sort decide what becomes of it.

    Then fuel of the first term's weight is enough (`Descends.normalize`). The
    weights need not follow the order in which the passes work: a run that stops
    has followed some derivation to where it stops (`Theory.Follows`), and that is
    all that is used about the order.
-/

namespace Equational

/-- A step at a place of a term is one of the term. -/
theorem Term.exists_inContext_of_subterm {root : Term → Term → Prop} {v w t : Term}
    (h : v.Subterm t) (hroot : root v w) : ∃ u, InContext root t u := by
  induction h with
  | refl => exact ⟨w, .root hroot⟩
  | argument operation sort ha _ ih =>
    obtain ⟨u, hstep⟩ := ih
    obtain ⟨before, after, rfl⟩ := List.append_of_mem ha
    exact ⟨_, .argument operation sort before after hstep⟩

namespace Theory

variable {theory : Theory} {specification : Specification} {weighs : Nat → Term → Prop}

theorem Stable.clear {t : Term} (h : theory.Stable t) : theory.Clear t := by
  obtain ⟨owner, hlookup, hrules⟩ := h
  exact ⟨owner, none, hlookup, Rule.rewriteFirst?_eq_none_iff.mpr hrules⟩

/-- Nothing fires in an irreducible term. -/
theorem Irreducible.not_inContext {t u : Term} (h : theory.Irreducible t) :
    ¬ Term.InContext theory.Fires t u := by
  intro hstep
  induction hstep with
  | root hfires =>
    obtain ⟨owner, hlookup, hrules⟩ := h.stable
    obtain ⟨owner', hlookup', hnext⟩ := hfires
    rw [hlookup, Option.some.injEq] at hlookup'
    rw [← hlookup', Specification.step?, Rule.rewriteFirst?_eq_none_iff.mpr hrules] at hnext
    cases hnext
  | argument operation sort before after _ ih =>
    exact ih ((irreducible_app.mp h).2 _ (by simp))

/-- What a term weighs is more than what any firing in it leaves, and no place of
    it stops a run by an error. -/
structure Descends (theory : Theory) (weighs : Nat → Term → Prop) : Prop where
  lowers : ∀ {n t u}, weighs n t → Term.InContext theory.Fires t u → ∃ m < n, weighs m u
  clear : ∀ {n t}, weighs n t → ∀ v, v.Subterm t → theory.Clear v

/-- A derivation takes at least one from the weight for each of its steps. -/
theorem Descends.derivation (descends : theory.Descends weighs) {k n : Nat} {t u : Term}
    (h : Derivation (Term.InContext theory.Fires) k t u) (hn : weighs n t) :
    ∃ m, m + k ≤ n ∧ weighs m u := by
  induction h generalizing n with
  | done t => exact ⟨n, Nat.le_refl n, hn⟩
  | step hstep _ ih =>
    obtain ⟨m, hm, hnext⟩ := descends.lowers hn hstep
    obtain ⟨l, hl, hlast⟩ := ih hnext
    exact ⟨l, by omega, hlast⟩

/-- A run with as many firings as its term weighs does not stop before its
    result. -/
theorem Descends.outcome (descends : theory.Descends weighs) {n fuel : Nat} {t : Term}
    (hn : weighs n t) (hfuel : n ≤ fuel) {run : Run Term} (follows : theory.Follows fuel t run) :
    ∃ result m, run.outcome = .ok result ∧ weighs m result := by
  obtain ⟨k, u, hleft, hderivation, hok, herror⟩ := follows
  obtain ⟨m, hm, hu⟩ := descends.derivation hderivation hn
  cases hrun : run.outcome with
  | ok result =>
    rw [hok result hrun]
    exact ⟨u, m, rfl, hu⟩
  | error reason =>
    -- the run is out of firings before a term that has weight left
    obtain ⟨v, hv, halts⟩ := herror reason hrun
    obtain ⟨-, hzero, w, hfires⟩ := halts.of_clear (descends.clear hu v hv)
    obtain ⟨next, hnext⟩ := Term.exists_inContext_of_subterm hv hfires
    obtain ⟨less, hless, -⟩ := descends.lowers hu hnext
    omega

/-- Normalization without limit, of a term that has a weight, ends in an
    irreducible term that has one, with any fuel from the weight on. -/
theorem Descends.normalize (descends : theory.Descends weighs)
    (registered : theory.Registered specification) {n fuel : Nat} {t : Term} (hn : weighs n t)
    (hfuel : n ≤ fuel) {budget : Budget} (unlimited : budget.limit = none) :
    ∃ result m, (theory.normalize fuel budget specification t).1 = .ok result ∧
      theory.Irreducible result ∧ weighs m result := by
  have hallowance : budget.allowance fuel = fuel := by
    simp only [Budget.allowance, unlimited]
  rw [← hallowance] at hfuel
  obtain ⟨result, m, hrun, hm⟩ :=
    descends.outcome hn hfuel (normalizeWithin_follows registered (budget.allowance fuel) t)
  have hnormalize := normalize_eq_ok_iff.mpr hrun
  exact ⟨result, m, hnormalize, irreducible_of_normalize registered hnormalize, hm⟩

end Theory

end Equational
