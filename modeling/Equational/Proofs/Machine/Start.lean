import Equational.Environment.Basic
import Equational.Proofs.Machine.Outcome
import Equational.Proofs.Specification.Numbers
import Mathlib

/-! # The specification that a run starts with

    Every pass of a run starts with the same specification, whatever sort the
    term has come to. If it is one of the theory, it makes no difference which
    (`Environment.start_irrelevant`): a pass over a term of its sort does what
    the theory's owner of the term would do, and a pass over any other term hands
    it to that owner.

    Two runs may so hand their terms over at different moments, but they fire the
    same rules. The equations go up from the settling of a root
    (`settle_eq_of_registered`) to the loop of passes
    (`normalizeWithin_eq_of_registered`), and from there to what the machine does.
-/

namespace Equational

namespace Theory

variable {theory : Theory} {specification other : Specification} {term : Term}

theorem settle_eq_of_registered (registered : theory.Registered specification)
    (registered' : theory.Registered other) (n : Nat) (term : Term) :
    theory.settle n specification term = theory.settle n other term := by
  have howner : theory.owner specification term = theory.owner other term := by
    rw [owner_eq_lookup registered, owner_eq_lookup registered']
  unfold settle
  rw [howner]

theorem pass_eq_of_registered (registered : theory.Registered specification)
    (registered' : theory.Registered other) (n : Nat) (term : Term) :
    theory.pass n specification term = theory.pass n other term := by
  rw [pass_eq, pass_eq, settle_eq_of_registered registered registered']

theorem normalizeWithin_eq_of_registered (registered : theory.Registered specification)
    (registered' : theory.Registered other) (n : Nat) (term : Term) :
    theory.normalizeWithin specification n term = theory.normalizeWithin other n term := by
  -- by induction on what is left, since the passes behind the first have less
  induction n using Nat.strong_induction_on generalizing term with
  | h n ih =>
    have hpass := pass_eq_of_registered registered registered' n term
    unfold normalizeWithin
    rw [hpass]
    cases hfirst : (theory.pass n other term).outcome with
    | error reason => simp only [hfirst]
    | ok next =>
      simp only [hfirst]
      by_cases hless : (theory.pass n other term).left < n
      · rw [if_pos hless, if_pos hless]
        exact ih _ hless next
      · rw [if_neg hless, if_neg hless]

theorem normalize_eq_of_registered (registered : theory.Registered specification)
    (registered' : theory.Registered other) (fuel : Nat) (budget : Budget) (term : Term) :
    theory.normalize fuel budget specification term = theory.normalize fuel budget other term := by
  simp only [normalize, normalizeWithin_eq_of_registered registered registered']

/-- A term whose sort is not specified is refused, without a firing. -/
theorem normalize_of_undefined (registered : theory.Registered specification)
    (undefined : theory.lookup? term.sort = none) (fuel : Nat) (budget : Budget) :
    theory.normalize fuel budget specification term =
      (.error (.failed (.undefinedSort term.sort)), budget) := by
  have hlookup : theory.lookup term.sort = .error (.undefinedSort term.sort) :=
    lookup_eq_error_iff.mpr ⟨undefined, rfl⟩
  have hsettle : ∀ n, theory.settle n specification term =
      ⟨.error (.failed (.undefinedSort term.sort)), n⟩ := by
    intro n
    unfold settle
    rw [owner_eq_lookup registered, hlookup]
  have hrun : ∀ n, theory.normalizeWithin specification n term =
      ⟨.error (.failed (.undefinedSort term.sort)), n⟩ := by
    intro n
    unfold normalizeWithin
    simp only [pass_eq, hsettle]
  simp [normalize, hrun, mapError_error, Budget.explain]

end Theory

namespace Environment

/-- It does not matter which registered specification a normalization starts
    under: the outcome is the same and so is the budget left, or both go on
    forever. In an environment, whose settings give the budget, the one of the
    term's own sort is as good as any, and where there is none, the others fail
    for that reason too. -/
theorem start_irrelevant (environment : Environment) (specification other : Specification)
    (registered : environment.theory.Registered specification)
    (registered' : environment.theory.Registered other) (term : Term) :
    (∀ fuel budget, environment.theory.normalize fuel budget specification term =
      environment.theory.normalize fuel budget other term) ∧
    (∀ budget outcome behind,
      environment.theory.Ends budget specification term outcome behind ↔
        environment.theory.Ends budget other term outcome behind) ∧
    (∀ budget, environment.theory.RunsForever budget specification term ↔
      environment.theory.RunsForever budget other term) ∧
    (∀ fuel, environment.normalizeUnder fuel specification term =
        (environment.theory.normalize fuel environment.settings.budget specification term).1 ∧
      environment.normalizeUnder fuel specification term = environment.normalize fuel term) ∧
    (environment.theory.lookup? term.sort = none → ∀ fuel,
      environment.normalizeUnder fuel specification term =
        .error (.failed (.undefinedSort term.sort))) := by
  have hsame := fun fuel budget =>
    Theory.normalize_eq_of_registered registered registered' fuel budget term
  refine ⟨hsame, ?_, ?_, ?_, ?_⟩
  · intro budget outcome behind
    rw [Theory.ends_iff, Theory.ends_iff]
    simp only [hsame]
  · intro budget
    rw [Theory.runsForever_iff, Theory.runsForever_iff]
    simp only [hsame]
  · intro fuel
    refine ⟨environment.normalizeUnder_eq fuel specification term, ?_⟩
    cases hlookup : environment.theory.lookup? term.sort with
    | none =>
      simp only [normalize, normalizeUnder_eq, Theory.lookup, hlookup]
      rw [Theory.normalize_of_undefined registered hlookup]
    | some owner =>
      have hown := Theory.registered_of_lookup? hlookup
      simp only [normalize, normalizeUnder_eq, Theory.lookup, hlookup]
      rw [Theory.normalize_eq_of_registered registered hown]
  · intro undefined fuel
    rw [normalizeUnder_eq, Theory.normalize_of_undefined registered undefined]

/-- A sum is worked out under the specification of numbers and under one of
    another sort. -/
theorem one_plus_zero_started_elsewhere :
    let flags : Specification := ⟨⟨"Flag", [], [⟨"up", [], "Flag"⟩]⟩, []⟩
    let environment : Environment :=
      ((new Settings.standard).register .numbers).register flags
    let sum := Term.plus (.ofCount 1) (.ofCount 0)
    environment.theory.Registered flags ∧ environment.theory.Registered .numbers ∧
      environment.theory.normalize 2 ⟨none, 0⟩ flags sum =
        environment.theory.normalize 2 ⟨none, 0⟩ .numbers sum ∧
      environment.theory.normalize 2 ⟨none, 0⟩ flags sum = (.ok (.ofCount 1), ⟨none, 2⟩) ∧
      environment.normalizeUnder 2 flags sum = .ok (.ofCount 1) ∧
      environment.normalizeUnder 0 flags (.app "push" "Stack" []) =
        .error (.failed (.undefinedSort "Stack")) := by
  intro flags environment sum
  have hflags : environment.theory.Registered flags := Theory.registered_register _ _
  have hnumbers : environment.theory.Registered .numbers := by cbv
  obtain ⟨hsame, -, -, hunder, -⟩ :=
    start_irrelevant environment flags .numbers hflags hnumbers sum
  have hsum : environment.theory.normalize 2 ⟨none, 0⟩ .numbers sum =
      (.ok (.ofCount 1), ⟨none, 2⟩) := by cbv
  have hstack := (start_irrelevant environment flags .numbers hflags hnumbers
    (.app "push" "Stack" [])).2.2.2.2 (by cbv) 0
  have hflagged := (hsame 2 ⟨none, 0⟩).trans hsum
  have hvalue := (hunder 2).1.trans (congrArg Prod.fst hflagged)
  exact ⟨hflags, hnumbers, hsame 2 ⟨none, 0⟩, hflagged, hvalue, hstack⟩

end Environment

end Equational
