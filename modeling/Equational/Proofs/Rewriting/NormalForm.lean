import Equational.Proofs.Rewriting.Derivation
import Equational.Proofs.Specification.Numbers
import Equational.Proofs.Term.Subterm
import Equational.Session
import Mathlib

/-! # Normal forms

    A term is **irreducible** when every term that stands in it is of a
    specified sort and none of that sort's rules changes it.

    Normalization ends in irreducible terms, and an irreducible term is what it
    leaves alone: no rule fires, so not even an exhausted budget stops it. The
    last pass of a run is the one that fires no rule; `pass_certifies` says that
    such a pass has seen every place of the term in vain.

    Whatever an environment computes is therefore irreducible in its theory.
-/

namespace Equational

namespace Theory

variable {theory : Theory} {specification : Specification}

/-- No rule of the theory changes the term anywhere, and all sorts that it uses
    are specified. -/
def Irreducible (theory : Theory) (term : Term) : Prop :=
  ∀ u, Term.Subterm u term → theory.Stable u

theorem irreducible_var {name sort : String} :
    theory.Irreducible (.var name sort) ↔ theory.Stable (.var name sort) :=
  Term.forall_subterm_var

theorem irreducible_app {operation sort : String} {arguments : List Term} :
    theory.Irreducible (.app operation sort arguments) ↔
      theory.Stable (.app operation sort arguments) ∧ ∀ a ∈ arguments, theory.Irreducible a :=
  Term.forall_subterm_app

theorem Irreducible.stable {term : Term} (h : theory.Irreducible term) : theory.Stable term :=
  h term (.refl term)

theorem Stable.lookup {term : Term} (h : theory.Stable term) :
    ∃ owner, theory.lookup term.sort = .ok owner ∧ theory.Registered owner := by
  obtain ⟨owner, hlookup, _⟩ := h
  exact ⟨owner, lookup_eq_ok_iff.mpr hlookup, registered_of_lookup? hlookup⟩

/-! ## Passes that fire no rule -/

/-- A pass leaves an irreducible term as it is. -/
theorem pass_of_irreducible {term : Term} (irreducible : theory.Irreducible term)
    (registered : theory.Registered specification) (n : Nat) :
    theory.pass n specification term = ⟨.ok term, n⟩ := by
  have hroot := settle_of_stable registered irreducible.stable n
  induction term using Term.induct generalizing specification with
  | var name sort => rw [pass_eq, hroot]
  | app operation sort arguments ih =>
    have hinner : theory.passAll n arguments = ⟨.ok arguments, n⟩ := by
      have hall := (irreducible_app.mp irreducible).2
      clear hroot irreducible
      induction arguments with
      | nil => exact passAll_nil theory n
      | cons a rest ihRest =>
        have ha := hall a (by simp)
        obtain ⟨owner, hlookup, howner⟩ := ha.stable.lookup
        have hhead := ih a (by simp) ha howner (settle_of_stable howner ha.stable n)
        have htail := ihRest (fun t ht => ih t (by simp [ht])) (fun t ht => hall t (by simp [ht]))
        rw [passAll_cons, hlookup]
        simp only [hhead, htail, Except.map]
    rw [pass_eq, hroot]
    simp only [hinner, Except.map]

/-- What a pass certifies that was charged nothing: it gives back its term, and
    no place of the term can be rewritten. -/
def Certifies (theory : Theory) (n : Nat) (term : Term) (run : Run Term) : Prop :=
  ∀ result, run.outcome = .ok result → run.left = n → result = term ∧ theory.Irreducible term

/-- What passes over arguments certify that were charged nothing. -/
def CertifiesAll (theory : Theory) (n : Nat) (terms : List Term) (run : Run (List Term)) : Prop :=
  ∀ results, run.outcome = .ok results → run.left = n →
    results = terms ∧ ∀ t ∈ terms, theory.Irreducible t

theorem pass_certifies (theory : Theory) :
    (∀ n specification term, theory.Registered specification →
      theory.Certifies n term (theory.pass n specification term)) ∧
    (∀ n terms, theory.CertifiesAll n terms (theory.passAll n terms)) := by
  apply theory.pass_induct (motive := fun n specification term run =>
    theory.Registered specification → theory.Certifies n term run)
  case stopped =>
    intro n specification term reason _ _ result h
    cases h
  case var =>
    intro n specification term name sort hroot registered result h hleft
    cases h
    have hterm := settle_eq_of_left_eq hroot hleft
    have hstable := (settle_ok registered hroot).1
    rw [← hterm]
    exact ⟨rfl, irreducible_var.mpr hstable⟩
  case app =>
    -- nothing was charged at the root either, so these are the term's own arguments
    intro n specification term operation sort arguments inner hroot hle ih registered result h hleft
    obtain ⟨results, hinner, hresult⟩ := map_eq_ok_iff.mp h
    have hcharge := theory.settle_left_le n specification term
    have hsettled : (theory.settle n specification term).left = n := by
      simp only at hleft
      omega
    have hterm := settle_eq_of_left_eq hroot hsettled
    have hstable := (settle_ok registered hroot).1
    have hinnerLeft : inner.left = (theory.settle n specification term).left := by
      simp only at hleft
      omega
    obtain ⟨hresults, harguments⟩ := ih results hinner hinnerLeft
    rw [← hresult, hresults, ← hterm]
    exact ⟨rfl, irreducible_app.mpr ⟨hstable, harguments⟩⟩
  case nil =>
    intro n results h _
    cases h
    exact ⟨rfl, by simp⟩
  case undefined =>
    intro n term rest error _ results h
    cases h
  case head =>
    intro n term rest specification reason left _ _ results h
    cases h
  case cons =>
    -- the first argument was not charged for, and so neither were the others
    intro n term rest specification result left tail hlookup hhead htail ihHead ihTail results h
      hleft
    obtain ⟨others, hothers, hresults⟩ := map_eq_ok_iff.mp h
    have registered := registered_of_lookup? (lookup_eq_ok_iff.mp hlookup)
    have hheadLeft : left = n := by
      simp only at hleft
      omega
    have htailLeft : tail.left = left := by
      simp only at hleft
      omega
    obtain ⟨hresult, hterm⟩ := ihHead registered result rfl hheadLeft
    obtain ⟨hothers', hrest⟩ := ihTail others hothers htailLeft
    rw [← hresults, hresult, hothers']
    refine ⟨rfl, ?_⟩
    intro t ht
    rcases List.mem_cons.mp ht with rfl | ht
    · exact hterm
    · exact hrest t ht

/-! ## Normalization -/

/-- The last pass of a run certifies its result. -/
theorem irreducible_of_normalizeWithin {n : Nat} {term result : Term}
    (registered : theory.Registered specification)
    (h : (theory.normalizeWithin specification n term).outcome = .ok result) :
    theory.Irreducible result := by
  fun_induction normalizeWithin theory specification n term with
  | case1 n term first reason hfirst => cases h
  | case2 n term first next hfirst hless ih => exact ih h
  | case3 n term first last hfirst hnot =>
    -- the last pass: it was charged nothing
    cases h
    have hle := theory.pass_left_le n specification term
    have hleft : (theory.pass n specification term).left = n := by
      change ¬ (theory.pass n specification term).left < n at hnot
      omega
    obtain ⟨heq, hterm⟩ := (pass_certifies theory).1 n specification term registered _ hfirst hleft
    rw [heq]
    exact hterm

theorem normalizeWithin_of_irreducible {term : Term} (irreducible : theory.Irreducible term)
    (registered : theory.Registered specification) (n : Nat) :
    theory.normalizeWithin specification n term = ⟨.ok term, n⟩ := by
  have hpass := pass_of_irreducible irreducible registered n
  unfold normalizeWithin
  simp only [hpass, Nat.lt_irrefl, if_false]

/-- Normalization ends in irreducible terms only. -/
theorem irreducible_of_normalize {fuel : Nat} {budget : Budget} {term result : Term}
    (registered : theory.Registered specification)
    (h : (theory.normalize fuel budget specification term).1 = .ok result) :
    theory.Irreducible result := by
  exact irreducible_of_normalizeWithin registered (normalize_eq_ok_iff.mp h)

/-- Normalization gives an irreducible term back and takes nothing from the
    budget, even from one that is used up. -/
theorem normalize_of_irreducible {term : Term} (irreducible : theory.Irreducible term)
    (registered : theory.Registered specification) (fuel : Nat) (budget : Budget) :
    theory.normalize fuel budget specification term = (.ok term, budget) := by
  have hrun := normalizeWithin_of_irreducible irreducible registered (budget.allowance fuel)
  unfold normalize
  simp only [hrun, mapError_ok, Nat.sub_self, Nat.add_zero]

end Theory

/-! ## Environments -/

namespace Environment

variable {environment : Environment} {fuel : Nat}

/-- The environment computes a value: by a call, or as the answer to a text. -/
inductive Computes (environment : Environment) (fuel : Nat) : Value → Prop where
  | dispatch {specification : Specification} {operation : String} {arguments : List Value}
      {value : Value} : environment.dispatch fuel specification operation arguments = .ok value →
      Computes environment fuel value
  | call {sort operation : String} {arguments : List Value} {value : Value} :
      environment.call fuel sort operation arguments = .ok value → Computes environment fuel value
  | callOn {receiver : Value} {operation : String} {arguments : List Value} {value : Value} :
      environment.callOn fuel receiver operation arguments = .ok value →
      Computes environment fuel value
  | evaluate {session : Session} {text defaultSort : String} {value : Value} :
      (session.evaluate environment fuel text defaultSort).1 = .ok value →
      Computes environment fuel value

/-- A term of a specified sort is normalized under the specification of its
    sort. -/
theorem normalize_of_lookup? {term : Term} {owner : Specification}
    (h : environment.theory.lookup? term.sort = some owner) (fuel : Nat) :
    environment.normalize fuel term =
      (environment.theory.normalize fuel environment.settings.budget owner term).1 := by
  unfold normalize
  simp only [Theory.lookup_eq_ok_iff.mpr h, normalizeUnder_eq]

/-- Only such a term has a normal form. -/
theorem exists_owner_of_normalize {term result : Term}
    (h : environment.normalize fuel term = .ok result) :
    ∃ owner, environment.theory.Registered owner ∧
      (environment.theory.normalize fuel environment.settings.budget owner term).1 =
        .ok result := by
  cases hlookup : environment.theory.lookup term.sort with
  | error error => simp [normalize, hlookup] at h
  | ok owner =>
    have hfound := Theory.lookup_eq_ok_iff.mp hlookup
    rw [normalize_of_lookup? hfound] at h
    exact ⟨owner, Theory.registered_of_lookup? hfound, h⟩

theorem irreducible_of_normalize {term result : Term}
    (h : environment.normalize fuel term = .ok result) : environment.theory.Irreducible result := by
  obtain ⟨owner, registered, hrun⟩ := exists_owner_of_normalize h
  exact Theory.irreducible_of_normalize registered hrun

/-- An irreducible term is its own normal form. -/
theorem normalize_of_irreducible {term : Term} (h : environment.theory.Irreducible term)
    (fuel : Nat) : environment.normalize fuel term = .ok term := by
  obtain ⟨owner, hlookup, registered⟩ := h.stable.lookup
  rw [normalize_of_lookup? (Theory.lookup_eq_ok_iff.mp hlookup),
    Theory.normalize_of_irreducible h registered]

theorem irreducible_of_dispatch {specification : Specification} {operation : String}
    {arguments : List Value} {value : Value}
    (h : environment.dispatch fuel specification operation arguments = .ok value) :
    environment.theory.Irreducible value.term := by
  unfold dispatch at h
  cases hcheck : specification.checkCall operation (arguments.map Value.sort) with
  | error error => simp [hcheck] at h
  | ok declared =>
    cases hlookup : environment.theory.lookup declared.resultSort with
    | error error => simp [hcheck, hlookup] at h
    | ok owner =>
      simp only [hcheck, hlookup] at h
      have registered := Theory.registered_of_lookup? (Theory.lookup_eq_ok_iff.mp hlookup)
      obtain ⟨result, hrun, hvalue⟩ := map_eq_ok_iff.mp h
      rw [← hvalue]
      exact Theory.irreducible_of_normalize registered hrun

theorem irreducible_of_call {sort operation : String} {arguments : List Value} {value : Value}
    (h : environment.call fuel sort operation arguments = .ok value) :
    environment.theory.Irreducible value.term := by
  unfold call at h
  cases hlookup : environment.theory.lookup sort with
  | error error => simp [hlookup] at h
  | ok specification =>
    simp only [hlookup] at h
    exact irreducible_of_dispatch h

theorem irreducible_of_evaluateTerm {session : Session} {term : Term} {value : Value}
    (h : session.evaluateTerm environment fuel term = .ok value) :
    environment.theory.Irreducible value.term := by
  unfold Session.evaluateTerm at h
  cases hterm : term.substitute session.bindings with
  | error error => simp [hterm] at h
  | ok instantiated =>
    simp only [hterm] at h
    obtain ⟨result, hrun, hvalue⟩ := map_eq_ok_iff.mp h
    rw [← hvalue]
    exact irreducible_of_normalize hrun

/-- The value of statements is that of the last of them. -/
theorem irreducible_of_evaluateAll {session : Session} {statements : List Statement} {value : Value}
    (h : (session.evaluateAll environment fuel statements).1 = .ok value) :
    environment.theory.Irreducible value.term := by
  induction statements generalizing session with
  | nil => simp [Session.evaluateAll] at h
  | cons statement rest ih =>
    unfold Session.evaluateAll at h
    cases hvalue : session.evaluateTerm environment fuel statement.term with
    | error reason => simp [hvalue] at h
    | ok found =>
      simp only [hvalue] at h
      cases rest with
      | nil =>
        cases h
        exact irreducible_of_evaluateTerm hvalue
      | cons next rest => exact ih h

theorem irreducible_of_computes {value : Value} (h : environment.Computes fuel value) :
    environment.theory.Irreducible value.term := by
  cases h with
  | dispatch h => exact irreducible_of_dispatch h
  | call h => exact irreducible_of_call h
  | callOn h => exact irreducible_of_call h
  | @evaluate session text defaultSort _ h =>
    unfold Session.evaluate at h
    cases hparse : Statement.parse text defaultSort environment.literals with
    | error error => simp [hparse] at h
    | ok statements =>
      simp only [hparse] at h
      exact irreducible_of_evaluateAll h

/-- The results of normalization are the irreducible terms, and these are its
    fixed points: they come back as they are, at no charge and under any budget.
    All that an environment computes is irreducible. -/
theorem normal_forms_are_fixed_points (environment : Environment) (specification : Specification)
    (registered : environment.theory.Registered specification) :
    (∀ fuel budget term result,
      (environment.theory.normalize fuel budget specification term).1 = .ok result →
        environment.theory.Irreducible result ∧
        ∀ fuel' budget', environment.theory.normalize fuel' budget' specification result =
          (.ok result, budget')) ∧
    (∀ fuel budget term, environment.theory.Irreducible term →
      environment.theory.normalize fuel budget specification term = (.ok term, budget)) ∧
    ∀ fuel value, environment.Computes fuel value →
      environment.theory.Irreducible value.term := by
  refine ⟨?_, ?_, ?_⟩
  · intro fuel budget term result h
    have irreducible := Theory.irreducible_of_normalize registered h
    exact ⟨irreducible, Theory.normalize_of_irreducible irreducible registered⟩
  · intro fuel budget term irreducible
    exact Theory.normalize_of_irreducible irreducible registered fuel budget
  · intro fuel value h
    exact irreducible_of_computes h

/-- One and zero make one after two firings, and one is then left alone by an
    exhausted budget. -/
theorem one_is_fixed_point :
    let environment : Environment := (new Settings.standard).register .numbers
    let sum := Term.plus (.ofCount 1) (.ofCount 0)
    environment.theory.Registered .numbers ∧
      environment.theory.normalize 9 ⟨none, 0⟩ .numbers sum = (.ok (.ofCount 1), ⟨none, 2⟩) ∧
      environment.theory.normalize 0 ⟨some 0, 0⟩ .numbers (.ofCount 1) =
        (.ok (.ofCount 1), ⟨some 0, 0⟩) := by
  intro environment sum
  have registered : environment.theory.Registered .numbers := Theory.registered_register _ _
  have hsum : environment.theory.normalize 9 ⟨none, 0⟩ .numbers sum =
      (.ok (.ofCount 1), ⟨none, 2⟩) := by cbv
  have hfixed := (normal_forms_are_fixed_points environment .numbers registered).1
    9 ⟨none, 0⟩ sum (.ofCount 1) (by rw [hsum])
  exact ⟨registered, hsum, hfixed.2 0 ⟨some 0, 0⟩⟩

end Environment

end Equational
