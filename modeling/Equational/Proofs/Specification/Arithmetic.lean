import Equational.Environment.Basic
import Equational.Proofs.Rewriting.Contraction
import Equational.Proofs.Rewriting.Descent
import Equational.Proofs.Specification.Library
import Equational.Proofs.Term.Number
import Mathlib

/-! # Arithmetic

    Wherever numbers are specified, a sum of numbers is worked out to its value,
    however its summands are nested.

    The rules for sums go down the first summand, and this may itself be a sum that
    is not worked out yet. So a term that stands at the root may have to wait for
    its arguments, and passes do not follow the recursion of the term. What does go
    down is the number of firings that are still to be made
    (`Arithmetic.firings`): each firing, wherever it is made, is one of them
    (`Arithmetic.fires`). A term that waits for none is a numeral.
-/

namespace Equational

/-! ## Rules for sums -/

namespace Theory

variable {theory : Theory}

/-- At the root of a term of numbers one of the two rules for sums fires. -/
theorem fires_numbers (registered : theory.Registered .numbers) {t u : Term}
    (hsort : t.sort = numberSort) (ground : t.isGround) (h : theory.Fires t u) :
    (∃ y, t = .plus (.ofCount 0) y ∧ u = y) ∨
      ∃ x y, t = .plus x.increment y ∧ u = (Term.plus x y).increment := by
  obtain ⟨rule, hrule, assignment, rfl, rfl⟩ := h.exists_rule registered hsort ground
  rcases List.mem_pair.mp hrule with rfl | rfl
  · exact .inl ⟨assignment "Y", rfl, rfl⟩
  · exact .inr ⟨assignment "X", assignment "Y", rfl, rfl⟩

/-- Neither fires at a zero or an increment. -/
theorem not_fires_of_name_ne (registered : theory.Registered .numbers) {t u : Term}
    (hsort : t.sort = numberSort) (hname : t.name ≠ "add") (ground : t.isGround) :
    ¬ theory.Fires t u := by
  intro h
  rcases fires_numbers registered hsort ground h with ⟨y, rfl, -⟩ | ⟨x, y, rfl, -⟩
  · exact hname rfl
  · exact hname rfl

/-- A sum of numerals is not stable. -/
theorem not_stable_plus_ofCount (registered : theory.Registered .numbers) (count : Nat)
    (term : Term) : ¬ theory.Stable (.plus (.ofCount count) term) := by
  intro h
  cases count with
  | zero => exact h.pattern_ne registered rfl List.mem_cons_self (fun _ => term) rfl
  | succ count =>
    rw [Term.ofCount_succ] at h
    refine h.pattern_ne registered rfl (List.mem_cons_of_mem _ List.mem_cons_self)
      (fun name => if name = "X" then .ofCount count else term) ?_
    rfl

end Theory

/-! ## Sums of numbers -/

/-- A number that is counted up and added, in any order. -/
inductive Arithmetic where
  | zero
  | increment (number : Arithmetic)
  | plus (left right : Arithmetic)

namespace Arithmetic

/-- The term that it is written as. -/
def term : Arithmetic → Term
  | zero => .constant "zero" numberSort
  | increment number => number.term.increment
  | plus left right => .plus left.term right.term

/-- The number that it is. -/
def value : Arithmetic → Nat
  | zero => 0
  | increment number => number.value + 1
  | plus left right => left.value + right.value

/-- The firings that work it out. A sum takes one for each increment of its first
    summand and one for the zero below, when both summands are worked out. -/
def firings : Arithmetic → Nat
  | zero => 0
  | increment number => number.firings
  | plus left right => left.firings + right.firings + left.value + 1

theorem sort_term (s : Arithmetic) : s.term.sort = numberSort := by
  cases s <;> rfl

theorem isGround_term (s : Arithmetic) : s.term.isGround := by
  induction s with
  | zero => rfl
  | increment number ih => simpa [term, Term.increment, Term.isGround, Term.allGround] using ih
  | plus left right ihLeft ihRight =>
    simp [term, Term.plus, Term.isGround, Term.allGround, ihLeft, ihRight]

variable {theory : Theory}

/-- Every firing is one of those counted, and leads to an equal number. -/
theorem fires (registered : theory.Registered .numbers) (s : Arithmetic) {u : Term}
    (h : Term.InContext theory.Fires s.term u) :
    ∃ r : Arithmetic, r.term = u ∧ r.value = s.value ∧ r.firings + 1 = s.firings := by
  induction s generalizing u with
  | zero =>
    exact absurd h.constant_root
      (Theory.not_fires_of_name_ne registered rfl (by decide) rfl)
  | increment number ih =>
    rcases h.unary_cases with hroot | ⟨t, hstep, rfl⟩
    · have hname : (increment number).term.name ≠ "add" := by simp [term, Term.increment, Term.name]
      exact absurd hroot
        (Theory.not_fires_of_name_ne registered rfl hname (isGround_term (.increment number)))
    · obtain ⟨r, rfl, hvalue, hfirings⟩ := ih hstep
      exact ⟨.increment r, rfl, by simp [value, hvalue], hfirings⟩
  | plus left right ihLeft ihRight =>
    rcases h.binary_cases with hroot | ⟨t, hstep, rfl⟩ | ⟨t, hstep, rfl⟩
    · -- the first summand is a zero or an increment
      rcases Theory.fires_numbers registered rfl (isGround_term (.plus left right)) hroot with
        ⟨y, hsum, hu⟩ | ⟨x, y, hsum, rfl⟩
      · obtain ⟨hleft, rfl⟩ : left.term = .ofCount 0 ∧ right.term = y := by
          simpa [term, Term.plus] using hsum
        rw [Term.ofCount_zero, Term.constant] at hleft
        cases left with
        | zero => exact ⟨right, hu.symm, by simp [value], by simp [firings, value]⟩
        | increment number => simp [term, Term.increment] at hleft
        | plus left right => simp [term, Term.plus] at hleft
      · obtain ⟨hleft, rfl⟩ : left.term = x.increment ∧ right.term = y := by
          simpa [term, Term.plus] using hsum
        cases left with
        | zero => simp [term, Term.increment, Term.constant] at hleft
        | increment number =>
          obtain rfl : number.term = x := by simpa [term, Term.increment] using hleft
          refine ⟨.increment (.plus number right), rfl, ?_, ?_⟩
          · simp only [value]
            omega
          · simp only [firings, value]
            omega
        | plus left right => simp [term, Term.increment, Term.plus] at hleft
    · obtain ⟨r, rfl, hvalue, hfirings⟩ := ihLeft hstep
      refine ⟨.plus r right, rfl, by simp [value, hvalue], ?_⟩
      simp only [firings, hvalue]
      omega
    · obtain ⟨r, rfl, hvalue, hfirings⟩ := ihRight hstep
      refine ⟨.plus left r, rfl, by simp [value, hvalue], ?_⟩
      simp only [firings]
      omega

/-- An irreducible one is the numeral of its value. -/
theorem term_eq_ofCount (registered : theory.Registered .numbers) (s : Arithmetic)
    (h : theory.Irreducible s.term) : s.term = .ofCount s.value := by
  induction s with
  | zero => rfl
  | increment number ih =>
    have hnumber := ih ((Theory.irreducible_app.mp h).2 number.term (by simp))
    rw [value, Term.ofCount_succ, ← hnumber, term]
  | plus left right ihLeft _ =>
    obtain ⟨hstable, harguments⟩ := Theory.irreducible_app.mp h
    rw [ihLeft (harguments left.term (by simp))] at hstable
    exact absurd hstable (Theory.not_stable_plus_ofCount registered left.value right.term)

/-- The number, and the firings that are left. -/
def Weighs (value n : Nat) (t : Term) : Prop :=
  ∃ s : Arithmetic, s.term = t ∧ s.value = value ∧ s.firings = n

theorem clear (registered : theory.Registered .numbers) (s : Arithmetic) (v : Term)
    (hv : v.Subterm s.term) : theory.Clear v := by
  have covered : ∀ rule ∈ Specification.numbers.rules,
      ∀ name ∈ rule.template.variableNames, name ∈ rule.pattern.variableNames := by decide
  have hroot : ∀ s : Arithmetic, theory.Clear s.term := fun s =>
    Theory.clear_of_covered registered covered s.sort_term
  revert v
  induction s with
  | zero => exact Term.forall_subterm_app.mpr ⟨hroot .zero, by simp⟩
  | increment number ih =>
    exact Term.forall_subterm_app.mpr ⟨hroot (.increment number), by simpa using ih⟩
  | plus left right ihLeft ihRight =>
    exact Term.forall_subterm_app.mpr
      ⟨hroot (.plus left right), by simpa using ⟨ihLeft, ihRight⟩⟩

theorem descends (registered : theory.Registered .numbers) (value : Nat) :
    theory.Descends (Weighs value) := by
  refine ⟨?_, ?_⟩
  · rintro n t u ⟨s, rfl, rfl, rfl⟩ hstep
    obtain ⟨r, hterm, hvalue, hfirings⟩ := fires registered s hstep
    exact ⟨r.firings, by omega, r, hterm, hvalue, rfl⟩
  · rintro n t ⟨s, rfl, -, -⟩ v hv
    exact clear registered s v hv

end Arithmetic

/-- Where numbers are specified, and rewriting has no limit, a number that is
    counted up and added in any order is worked out to the numeral of its value,
    whatever else is specified. The printer of numbers writes that in decimal. -/
theorem Environment.arithmetic_evaluates (environment : Environment)
    (unlimited : environment.settings.maxRewriteSteps = none)
    (loaded : environment.theory.Holds Specification.numbersText) (s : Arithmetic) :
    (∀ fuel ≥ s.firings, environment.normalize fuel s.term = .ok (.ofCount s.value)) ∧
      Printer.number (.ofCount s.value) = toString s.value := by
  have registered := loaded.registered Specification.parse_numbersText
  refine ⟨?_, Printer.number_ofCount s.value⟩
  intro fuel hfuel
  have hlimit : environment.settings.budget.limit = none := unlimited
  obtain ⟨result, m, hrun, hirreducible, r, rfl, hvalue, -⟩ :=
    (Arithmetic.descends registered s.value).normalize registered ⟨s, rfl, rfl, rfl⟩ hfuel hlimit
  have hlookup : environment.theory.lookup? s.term.sort = some .numbers := by
    rw [s.sort_term]
    exact registered
  rw [normalize_of_lookup? hlookup, hrun, r.term_eq_ofCount registered hirreducible, hvalue]

/-- The sum of a sum, `add(add(1, 2), inc(add(0, 1)))`, waits for its summand, and
    is worked out to five. -/
theorem Environment.nested_sum_evaluates :
    let environment := (Environment.new Settings.standard).register .numbers
    let one := Arithmetic.increment .zero
    let s := Arithmetic.plus (.plus one (.increment one)) (.increment (.plus .zero one))
    environment.settings.maxRewriteSteps = none ∧
      environment.theory.Holds Specification.numbersText ∧ s.value = 5 ∧
      environment.normalize 7 s.term = .ok (.ofCount 5) ∧ Printer.number (.ofCount 5) = "5" := by
  intro environment one s
  have loaded : environment.theory.Holds Specification.numbersText :=
    ⟨.numbers, Specification.parse_numbersText, Theory.registered_register _ _⟩
  have hvalue : s.value = 5 := rfl
  obtain ⟨hnormal, hprint⟩ := arithmetic_evaluates environment rfl loaded s
  rw [hvalue] at hnormal hprint
  exact ⟨rfl, loaded, hvalue, hnormal 7 (by decide), hprint⟩

end Equational
