import Equational.Proofs.Except
import Equational.Proofs.Term.Subterm
import Equational.Rewriting.Budget

/-! # Derivations

    Normalization rewrites one place of a term at a time. `Theory.Fires` says
    what the specification of a term's sort does at the root of the term,
    `Term.InContext` carries a relation between roots to any place of a term,
    and `Derivation` counts steps of a relation.

    A run follows a derivation, of one step for each firing, to its result or to
    a term that it stops at some place of (`Theory.Follows`). The settling of a
    root, the pass over a term and the loop of passes each have a lemma of this
    form. The main statement, `normalize_derivation`: a run that ends in a term
    has followed a derivation of as many steps as its budget was charged for.
-/

namespace Equational

/-! ## Derivations of a relation -/

/-- A number of steps, one after the other. -/
inductive Derivation {α : Type} (step : α → α → Prop) : Nat → α → α → Prop where
  | done (a : α) : Derivation step 0 a a
  | step {k : Nat} {a b c : α} : step a b → Derivation step k b c → Derivation step (k + 1) a c

namespace Derivation

variable {α : Type} {step : α → α → Prop}

theorem trans {j k : Nat} {a b c : α} (hab : Derivation step j a b) (hbc : Derivation step k b c) :
    Derivation step (j + k) a c := by
  induction hab with
  | done a => simpa using hbc
  | @step j a a' b hstep _ ih =>
    rw [show j + 1 + k = j + k + 1 from by omega]
    exact .step hstep (ih hbc)

/-- A property that each step keeps is kept along a derivation. -/
theorem invariant {property : α → Prop} (kept : ∀ a b, property a → step a b → property b)
    {k : Nat} {a b : α} (h : Derivation step k a b) (ha : property a) : property b := by
  induction h with
  | done a => exact ha
  | @step k a a' b hstep _ ih => exact ih (kept a a' ha hstep)

/-- From a start with some property, steps that keep the property and then are
    steps of another relation make a derivation of that relation. -/
theorem restrict {property : α → Prop} {other : α → α → Prop}
    (kept : ∀ a b, property a → step a b → property b ∧ other a b)
    {k : Nat} {a b : α} (h : Derivation step k a b) (ha : property a) :
    Derivation (fun a b => property a ∧ property b ∧ other a b) k a b := by
  induction h with
  | done a => exact .done a
  | @step k a a' b hstep _ ih =>
    obtain ⟨ha', hother⟩ := kept a a' ha hstep
    exact .step ⟨ha, ha', hother⟩ (ih ha')

end Derivation

namespace Term

/-! ## Steps at any place of a term -/

/-- Two terms that differ in one place, where `root` relates the terms that
    stand there. -/
inductive InContext (root : Term → Term → Prop) : Term → Term → Prop where
  | root {t u : Term} : root t u → InContext root t u
  | argument {t u : Term} (operation sort : String) (before after : List Term) :
      InContext root t u →
      InContext root (.app operation sort (before ++ t :: after))
        (.app operation sort (before ++ u :: after))

variable {root : Term → Term → Prop} {operation sort : String}

/-- A step in an application is one at its root or in one of its arguments. -/
theorem InContext.app_cases {arguments : List Term} {u : Term}
    (h : InContext root (.app operation sort arguments) u) :
    root (.app operation sort arguments) u ∨
      ∃ before t after t', arguments = before ++ t :: after ∧ InContext root t t' ∧
        u = .app operation sort (before ++ t' :: after) := by
  cases h with
  | root hroot => exact .inl hroot
  | argument _ _ before after hstep => exact .inr ⟨before, _, after, _, rfl, hstep, rfl⟩

theorem InContext.constant_root {u : Term} (h : InContext root (constant operation sort) u) :
    root (constant operation sort) u := by
  obtain hroot | ⟨before, t, after, t', harguments, -⟩ := h.app_cases
  · exact hroot
  · simp at harguments

theorem InContext.unary_cases {a u : Term} (h : InContext root (.app operation sort [a]) u) :
    root (.app operation sort [a]) u ∨
      ∃ a', InContext root a a' ∧ u = .app operation sort [a'] := by
  obtain hroot | ⟨before, t, after, t', harguments, hstep, rfl⟩ := h.app_cases
  · exact .inl hroot
  · obtain ⟨rfl, rfl, rfl⟩ : before = [] ∧ t = a ∧ after = [] := by
      simpa [eq_comm, List.append_eq_singleton_iff] using harguments
    exact .inr ⟨t', hstep, rfl⟩

theorem InContext.binary_cases {a b u : Term} (h : InContext root (.app operation sort [a, b]) u) :
    root (.app operation sort [a, b]) u ∨
      (∃ a', InContext root a a' ∧ u = .app operation sort [a', b]) ∨
      ∃ b', InContext root b b' ∧ u = .app operation sort [a, b'] := by
  obtain hroot | ⟨before, t, after, t', harguments, hstep, rfl⟩ := h.app_cases
  · exact .inl hroot
  · rcases List.cons_eq_append_iff.mp harguments with ⟨rfl, hfirst⟩ | ⟨before, rfl, hsecond⟩
    · obtain ⟨rfl, rfl⟩ : t = a ∧ after = [b] := by simpa using hfirst
      exact .inr (.inl ⟨t', hstep, rfl⟩)
    · obtain ⟨rfl, rfl, rfl⟩ : before = [] ∧ t = b ∧ after = [] := by
        simpa [eq_comm, List.append_eq_singleton_iff] using hsecond
      exact .inr (.inr ⟨t', hstep, rfl⟩)

/-- A derivation in one argument is one in the application. -/
theorem derivation_argument {root : Term → Term → Prop} {k : Nat} {t u : Term}
    (h : Derivation (InContext root) k t u) (operation sort : String) (before after : List Term) :
    Derivation (InContext root) k (.app operation sort (before ++ t :: after))
      (.app operation sort (before ++ u :: after)) := by
  induction h with
  | done t => exact .done _
  | step hstep _ ih => exact .step (.argument operation sort before after hstep) ih

end Term

/-! ## Rules -/

namespace Rule

/-- No rule changes a term exactly when each of them, on its own, does not
    match it. -/
theorem rewriteFirst?_eq_none_iff {term : Term} {rules : List Rule} :
    rewriteFirst? term rules = .ok none ↔ ∀ rule ∈ rules, rule.rewrite? term = .ok none := by
  induction rules with
  | nil => simp [rewriteFirst?]
  | cons rule rules ih =>
    unfold rewriteFirst?
    cases hrule : rule.rewrite? term with
    | error error => simp [hrule]
    | ok found =>
      cases found with
      | none => simp [hrule, ih]
      | some next => simp [hrule]

/-- The rule that changes a term is the first that matches it. -/
theorem rewriteFirst?_eq_some_iff {term next : Term} {rules : List Rule} :
    rewriteFirst? term rules = .ok (some next) ↔
      ∃ before rule after, rules = before ++ rule :: after ∧
        (∀ earlier ∈ before, earlier.rewrite? term = .ok none) ∧
        rule.rewrite? term = .ok (some next) := by
  constructor
  · intro h
    induction rules with
    | nil => simp [rewriteFirst?] at h
    | cons rule rules ih =>
      unfold rewriteFirst? at h
      cases hrule : rule.rewrite? term with
      | error error => simp [hrule] at h
      | ok found =>
        cases found with
        | none =>
          simp only [hrule] at h
          obtain ⟨before, found, after, hrules, hbefore, hfound⟩ := ih h
          refine ⟨rule :: before, found, after, by simp [hrules], ?_, hfound⟩
          intro earlier hmem
          rcases List.mem_cons.mp hmem with rfl | hmem
          · exact hrule
          · exact hbefore earlier hmem
        | some u =>
          simp only [hrule] at h
          exact ⟨[], rule, rules, rfl, by simp, by rw [hrule, h]⟩
  · intro h
    obtain ⟨before, rule, after, rfl, hbefore, hrule⟩ := h
    induction before with
    | nil => simp [rewriteFirst?, hrule]
    | cons earlier before ih =>
      have hearlier := hbefore earlier (by simp)
      have hrest := ih fun other hother => hbefore other (by simp [hother])
      simpa [rewriteFirst?, hearlier] using hrest

end Rule

namespace Theory

variable {theory : Theory} {specification : Specification}

/-! ## Roots -/

/-- The specification is the one that the theory has for its sort. -/
def Registered (theory : Theory) (specification : Specification) : Prop :=
  theory.lookup? specification.name = some specification

/-- The specification of the term's sort rewrites the root of `t` to `u`. -/
def Fires (theory : Theory) (t u : Term) : Prop :=
  ∃ owner, theory.lookup? t.sort = some owner ∧ owner.step? t = .ok (some u)

/-- The term's sort is specified, and none of its rules changes the root. -/
def Stable (theory : Theory) (t : Term) : Prop :=
  ∃ owner, theory.lookup? t.sort = some owner ∧
    ∀ rule ∈ owner.rules, rule.rewrite? t = .ok none

theorem registered_of_lookup? {sort : String} (h : theory.lookup? sort = some specification) :
    theory.Registered specification := by
  have hname := lookup?_name h
  rw [Registered, hname]
  exact h

theorem registered_register (theory : Theory) (specification : Specification) :
    (theory.register specification).Registered specification := by
  simp [Registered, lookup?, register]

/-- What a theory holds after one more specification, it held before or is that
    one. -/
theorem registered_of_register {other : Specification}
    (h : (theory.register specification).Registered other) :
    other = specification ∨ theory.Registered other := by
  unfold Registered lookup? register at h
  rw [Std.TreeMap.getElem?_insert] at h
  split at h
  · exact .inl (Option.some.inj h).symm
  · exact .inr h

theorem not_registered_empty : ¬ (∅ : Theory).Registered specification := by
  simp [Registered]

theorem lookup_eq_ok_iff {sort : String} :
    theory.lookup sort = .ok specification ↔ theory.lookup? sort = some specification := by
  unfold lookup
  cases theory.lookup? sort with
  | none => simp
  | some found => simp

theorem lookup_eq_error_iff {sort : String} {error : Error} :
    theory.lookup sort = .error error ↔
      theory.lookup? sort = none ∧ error = .undefinedSort sort := by
  unfold lookup
  cases theory.lookup? sort with
  | none => simp [eq_comm]
  | some found => simp

/-- A registered specification that starts a run is not preferred over the one
    of the term's sort: they are the same. -/
theorem owner_eq_lookup (registered : theory.Registered specification) (term : Term) :
    theory.owner specification term = theory.lookup term.sort := by
  unfold owner
  by_cases hsort : term.sort = specification.name
  · rw [if_pos hsort, hsort]
    exact (lookup_eq_ok_iff.mpr registered).symm
  · rw [if_neg hsort]

/-- Why a run stops at a place of a term, with so many firings left. -/
inductive Halts (theory : Theory) (left : Nat) (t : Term) : Stop → Prop where
  | undefined : theory.lookup? t.sort = none → Halts theory left t (.failed (.undefinedSort t.sort))
  | unbound {owner : Specification} {error : RewriteError} : theory.lookup? t.sort = some owner →
      owner.step? t = .error error → Halts theory left t (.failed (.rewrite error))
  | exhausted {u : Term} : left = 0 → theory.Fires t u → Halts theory left t (.exhausted t.sort)

/-- The sort of the place is specified, and its rules decide what becomes of it. -/
def Clear (theory : Theory) (t : Term) : Prop :=
  ∃ owner found, theory.lookup? t.sort = some owner ∧ owner.step? t = .ok found

/-- A run stops at a clear place only for want of a firing. -/
theorem Halts.of_clear {left : Nat} {t : Term} {reason : Stop} (h : theory.Halts left t reason)
    (clear : theory.Clear t) :
    reason = .exhausted t.sort ∧ left = 0 ∧ ∃ u, theory.Fires t u := by
  obtain ⟨owner, found, hlookup, hstep⟩ := clear
  cases h with
  | undefined hnone =>
    rw [hlookup] at hnone
    cases hnone
  | unbound hlookup' herror =>
    rw [hlookup, Option.some.injEq] at hlookup'
    rw [← hlookup', hstep] at herror
    cases herror
  | exhausted hleft hfires => exact ⟨rfl, hleft, _, hfires⟩

/-- Settling a root is a derivation at the root. It ends in a stable root, or in
    one that the run stops at. -/
theorem settle_follows (registered : theory.Registered specification) (n : Nat) (term : Term) :
    ∃ k u, (theory.settle n specification term).left + k = n ∧
      Derivation (Term.InContext theory.Fires) k term u ∧
      (∀ result, (theory.settle n specification term).outcome = .ok result →
        result = u ∧ theory.Stable u) ∧
      ∀ reason, (theory.settle n specification term).outcome = .error reason →
        theory.Halts (theory.settle n specification term).left u reason := by
  fun_induction settle theory n specification term with
  | case1 n specification term error howner =>
    rw [owner_eq_lookup registered, lookup_eq_error_iff] at howner
    obtain ⟨hlookup, rfl⟩ := howner
    refine ⟨0, term, rfl, .done _, by simp, ?_⟩
    intro reason h
    cases h
    exact .undefined hlookup
  | case2 n specification term owner howner error hstep =>
    rw [owner_eq_lookup registered, lookup_eq_ok_iff] at howner
    refine ⟨0, term, rfl, .done _, by simp, ?_⟩
    intro reason h
    cases h
    exact .unbound howner hstep
  | case3 n specification term owner howner hstep =>
    -- no rule matches
    rw [owner_eq_lookup registered, lookup_eq_ok_iff] at howner
    refine ⟨0, term, rfl, .done _, ?_, by simp⟩
    intro result h
    cases h
    exact ⟨rfl, owner, howner, Rule.rewriteFirst?_eq_none_iff.mp hstep⟩
  | case4 specification term owner howner next hstep =>
    rw [owner_eq_lookup registered, lookup_eq_ok_iff] at howner
    refine ⟨0, term, rfl, .done _, by simp, ?_⟩
    intro reason h
    cases h
    rw [lookup?_name howner]
    exact .exhausted rfl ⟨owner, howner, hstep⟩
  | case5 specification term owner howner next hstep m ih =>
    -- one firing, and then the same under the owner, which is registered too
    rw [owner_eq_lookup registered, lookup_eq_ok_iff] at howner
    obtain ⟨k, u, hleft, hderivation, hok, herror⟩ := ih (registered_of_lookup? howner)
    exact ⟨k + 1, u, by omega, .step (.root ⟨owner, howner, hstep⟩) hderivation, hok, herror⟩

/-- A settled root is stable, and was derived. -/
theorem settle_ok {n : Nat} {term result : Term} (registered : theory.Registered specification)
    (h : (theory.settle n specification term).outcome = .ok result) :
    theory.Stable result ∧
      ∃ k, (theory.settle n specification term).left + k = n ∧
        Derivation (Term.InContext theory.Fires) k term result := by
  obtain ⟨k, u, hleft, hderivation, hok, -⟩ := settle_follows registered n term
  obtain ⟨rfl, hstable⟩ := hok result h
  exact ⟨hstable, k, hleft, hderivation⟩

/-- A stable root is settled as it is, however few firings are left. -/
theorem settle_of_stable {term : Term} (registered : theory.Registered specification)
    (stable : theory.Stable term) (n : Nat) :
    theory.settle n specification term = ⟨.ok term, n⟩ := by
  obtain ⟨owner, hlookup, hrules⟩ := stable
  have howner : theory.owner specification term = .ok owner := by
    rw [owner_eq_lookup registered, lookup_eq_ok_iff]
    exact hlookup
  have hstep : owner.step? term = .ok none := Rule.rewriteFirst?_eq_none_iff.mpr hrules
  unfold settle
  simp only [howner, hstep]

/-! ## Passes -/

/-- A run has followed a derivation, of one step for each firing. The term that
    it got to is its result, or it stopped at some place there. -/
def Follows (theory : Theory) (n : Nat) (term : Term) (run : Run Term) : Prop :=
  ∃ k u, run.left + k = n ∧ Derivation (Term.InContext theory.Fires) k term u ∧
    (∀ result, run.outcome = .ok result → result = u) ∧
    ∀ reason, run.outcome = .error reason → ∃ v, v.Subterm u ∧ theory.Halts run.left v reason

/-- The same for a run over arguments. What is derived is any application that
    they are the last arguments of. -/
def FollowsAll (theory : Theory) (n : Nat) (terms : List Term) (run : Run (List Term)) : Prop :=
  ∃ k us, run.left + k = n ∧
    (∀ operation sort before, Derivation (Term.InContext theory.Fires) k
      (.app operation sort (before ++ terms)) (.app operation sort (before ++ us))) ∧
    (∀ results, run.outcome = .ok results → results = us) ∧
    ∀ reason, run.outcome = .error reason →
      ∃ u ∈ us, ∃ v, v.Subterm u ∧ theory.Halts run.left v reason

theorem pass_follows (theory : Theory) :
    (∀ n specification term, theory.Registered specification →
      theory.Follows n term (theory.pass n specification term)) ∧
    (∀ n terms, theory.FollowsAll n terms (theory.passAll n terms)) := by
  apply theory.pass_induct (motive := fun n specification term run =>
    theory.Registered specification → theory.Follows n term run)
  case stopped =>
    intro n specification term reason hroot registered
    obtain ⟨k, u, hleft, hderivation, -, herror⟩ := settle_follows registered n term
    refine ⟨k, u, hleft, hderivation, by simp, ?_⟩
    intro other h
    cases h
    exact ⟨u, .refl u, herror reason hroot⟩
  case var =>
    -- the root was settled to a variable, and that is all
    intro n specification term name sort hroot registered
    obtain ⟨-, k, hleft, hderivation⟩ := settle_ok registered hroot
    exact ⟨k, .var name sort, hleft, hderivation, by simp, by simp⟩
  case app =>
    -- the root was settled to an application, whose arguments come next
    intro n specification term operation sort arguments inner hroot _ ih registered
    obtain ⟨-, j, hj, hsettled⟩ := settle_ok registered hroot
    obtain ⟨k, us, hk, hpassed, hok, herror⟩ := ih
    have hleft : inner.left + (j + k) = n := by omega
    have hderivation := hsettled.trans (hpassed operation sort [])
    refine ⟨j + k, .app operation sort us, hleft, hderivation, ?_, ?_⟩
    · intro result h
      obtain ⟨results, hinner, rfl⟩ := map_eq_ok_iff.mp h
      rw [hok results hinner]
    · intro reason h
      obtain ⟨u, hu, v, hv, halts⟩ := herror reason (map_eq_error_iff.mp h)
      exact ⟨v, .argument operation sort hu hv, halts⟩
  case nil =>
    intro n
    exact ⟨0, [], rfl, fun operation sort before => .done _, by simp, by simp⟩
  case undefined =>
    intro n term rest error hlookup
    refine ⟨0, term :: rest, rfl, fun operation sort before => .done _, by simp, ?_⟩
    intro reason h
    cases h
    obtain ⟨hnone, rfl⟩ := lookup_eq_error_iff.mp hlookup
    exact ⟨term, by simp, term, .refl term, .undefined hnone⟩
  case head =>
    intro n term rest specification reason left hlookup ih
    obtain ⟨k, u, hleft, hderivation, -, herror⟩ :=
      ih (registered_of_lookup? (lookup_eq_ok_iff.mp hlookup))
    refine ⟨k, u :: rest, hleft, ?_, by simp, ?_⟩
    · intro operation sort before
      exact Term.derivation_argument hderivation operation sort before rest
    · intro other h
      cases h
      exact ⟨u, by simp, herror reason rfl⟩
  case cons =>
    -- the first argument changes with the others behind it, then they do
    intro n term rest specification result left tail hlookup _ _ ihHead ihTail
    obtain ⟨j, u, hj, hfirst, hresult, -⟩ :=
      ihHead (registered_of_lookup? (lookup_eq_ok_iff.mp hlookup))
    obtain rfl := hresult result rfl
    obtain ⟨k, us, hk, hothers, hok, herror⟩ := ihTail
    have hleft : tail.left + (j + k) = n := by
      simp only at hj
      omega
    refine ⟨j + k, result :: us, hleft, ?_, ?_, ?_⟩
    · intro operation sort before
      have hlast := hothers operation sort (before ++ [result])
      simp only [List.append_assoc, List.singleton_append] at hlast
      exact (Term.derivation_argument hfirst operation sort before rest).trans hlast
    · intro results h
      obtain ⟨others, htail, rfl⟩ := map_eq_ok_iff.mp h
      rw [hok others htail]
    · intro reason h
      obtain ⟨other, hmem, hstop⟩ := herror reason (map_eq_error_iff.mp h)
      exact ⟨other, by simp [hmem], hstop⟩

/-- The loop of passes puts their derivations one behind the other. -/
theorem normalizeWithin_follows (registered : theory.Registered specification) (n : Nat)
    (term : Term) : theory.Follows n term (theory.normalizeWithin specification n term) := by
  have hpass := (pass_follows theory).1
  fun_induction normalizeWithin theory specification n term with
  | case1 n term first reason hfirst =>
    obtain ⟨k, u, hleft, hderivation, -, herror⟩ := hpass n specification term registered
    refine ⟨k, u, hleft, hderivation, by simp, ?_⟩
    intro other h
    cases h
    exact herror reason hfirst
  | case2 n term first next hfirst hless ih =>
    -- a pass that was charged something, and the passes behind it
    obtain ⟨j, u, hj, hstart, hresult, -⟩ := hpass n specification term registered
    obtain rfl := hresult next hfirst
    obtain ⟨k, v, hk, hrest, hok, herror⟩ := ih
    have hfirstLeft : first.left + j = n := hj
    exact ⟨j + k, v, by omega, hstart.trans hrest, hok, herror⟩
  | case3 n term first last hfirst =>
    obtain ⟨k, u, hleft, hderivation, hresult, -⟩ := hpass n specification term registered
    refine ⟨k, u, hleft, hderivation, ?_, by simp⟩
    intro result h
    cases h
    exact hresult last hfirst

/-! ## Normalization -/

/-- Normalization gives what its passes end in. -/
theorem normalize_eq_ok_iff {fuel : Nat} {budget : Budget} {term result : Term} :
    (theory.normalize fuel budget specification term).1 = .ok result ↔
      (theory.normalizeWithin specification (budget.allowance fuel) term).outcome = .ok result :=
  mapError_eq_ok_iff

/-- It stops where they stop, and tells whether that is at its limit. -/
theorem normalize_eq_error_iff {fuel : Nat} {budget : Budget} {term : Term} {reason : Stop} :
    (theory.normalize fuel budget specification term).1 = .error reason ↔
      ∃ found, (theory.normalizeWithin specification (budget.allowance fuel) term).outcome =
        .error found ∧ budget.explain found = reason :=
  mapError_eq_error_iff

/-- A normalization that ends in a term has followed a derivation of as many
    steps as its budget was charged for. -/
theorem normalize_derivation {fuel : Nat} {budget : Budget} {term result : Term}
    (registered : theory.Registered specification)
    (h : (theory.normalize fuel budget specification term).1 = .ok result) :
    ∃ k, (theory.normalize fuel budget specification term).2 =
        { budget with used := budget.used + k } ∧
      Derivation (Term.InContext theory.Fires) k term result := by
  obtain ⟨k, u, hk, hderivation, hok, -⟩ :=
    normalizeWithin_follows registered (budget.allowance fuel) term
  rw [← hok result (normalize_eq_ok_iff.mp h)] at hderivation
  refine ⟨k, ?_, hderivation⟩
  unfold normalize
  dsimp only
  rw [show budget.allowance fuel -
    (theory.normalizeWithin specification (budget.allowance fuel) term).left = k from by omega]

end Theory

end Equational
