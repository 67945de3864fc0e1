import Equational.Proofs.Term.Rendering
import Equational.Proofs.Text.Numeral
import Equational.Term.Literal

/-! # Numbers and their printer

    A number is counted up from `zero()` by `inc(_)`, both in the sort of numbers.
    The printer of numbers looks at names alone: a term **resembles** a number when
    unary applications of `inc` lead down to an application of `zero`, in whatever
    sorts they are written and whatever `zero` is applied to.

    `Printer.number_iff_resembles` says that the terms that resemble a number are
    the ones shown in decimal. A number is shown as it should be, and so is a term
    that resembles none; a term that resembles a number without being one is shown
    as that number.
-/

namespace Equational

namespace Term

/-! ## Numbers -/

theorem isGround_ofCount (count : Nat) : (ofCount count).isGround = true := by
  induction count with
  | zero => rfl
  | succ count ih =>
    rw [ofCount_succ, increment, isGround]
    exact allGround_iff.mpr (List.forall_mem_singleton.mpr ih)

/-- Only numbers stand in a number. -/
theorem exists_ofCount_of_subterm {count : Nat} {u : Term} (h : u.Subterm (ofCount count)) :
    ∃ lower ≤ count, u = ofCount lower := by
  induction count with
  | zero => exact ⟨0, Nat.le_refl 0, eq_of_subterm_of_arguments_eq_nil h rfl⟩
  | succ count ih =>
    rw [ofCount_succ] at h
    cases h with
    | refl => exact ⟨count + 1, Nat.le_refl _, (ofCount_succ count).symm⟩
    | argument _ _ ha hu =>
      obtain rfl := List.mem_singleton.mp ha
      obtain ⟨lower, hle, hlower⟩ := ih hu
      exact ⟨lower, Nat.le_succ_of_le hle, hlower⟩

/-! ## Resemblance -/

/-- The term has the names of a number's nodes: `inc`, with one argument, as often
    as counted, and then `zero`. -/
inductive Resembles : Nat → Term → Prop where
  | zero (sort : String) (arguments : List Term) : Resembles 0 (.app "zero" sort arguments)
  | increment {count : Nat} {term : Term} (sort : String) :
      Resembles count term → Resembles (count + 1) (.app "inc" sort [term])

theorem resembles_ofCount (count : Nat) : Resembles count (ofCount count) := by
  induction count with
  | zero => exact .zero numberSort []
  | succ count ih =>
    rw [ofCount_succ]
    exact .increment numberSort ih

/-- From a term that resembles a number, as many increments are taken off. -/
theorem Resembles.takeIncrements {count : Nat} {term : Term} (h : Resembles count term)
    (start : Nat) :
    ∃ sort arguments, term.takeIncrements start = (start + count, .app "zero" sort arguments) := by
  induction h generalizing start with
  | zero sort arguments =>
    refine ⟨sort, arguments, ?_⟩
    unfold Term.takeIncrements
    split
    · rename_i hzero
      cases hzero
      exact if_neg (by decide)
    · rfl
  | @increment count term sort _ ih =>
    obtain ⟨sort', arguments, htake⟩ := ih (start + 1)
    refine ⟨sort', arguments, ?_⟩
    have hcount : start + 1 + count = start + (count + 1) := by omega
    rw [Term.takeIncrements, if_pos rfl, htake, hcount]

/-- Where `zero` is left, the term resembles the number of increments taken off. -/
theorem resembles_of_takeIncrements {start total : Nat} {term : Term} {sort : String}
    {arguments : List Term}
    (h : term.takeIncrements start = (total, .app "zero" sort arguments)) :
    ∃ count, total = start + count ∧ Resembles count term := by
  fun_induction Term.takeIncrements start term with
  | case1 start sort' argument ih =>
    -- one more increment was taken off
    obtain ⟨count, htotal, hargument⟩ := ih h
    exact ⟨count + 1, by omega, .increment sort' hargument⟩
  | case2 start operation sort' argument hname =>
    cases h
    exact ⟨0, rfl, .zero sort [argument]⟩
  | case3 start term _ =>
    cases h
    exact ⟨0, rfl, .zero sort arguments⟩

/-- A term resembles one number at most. -/
theorem Resembles.unique {count other : Nat} {term : Term} (h : Resembles count term)
    (h' : Resembles other term) : count = other := by
  obtain ⟨_, _, htake⟩ := h.takeIncrements 0
  obtain ⟨_, _, htake'⟩ := h'.takeIncrements 0
  rw [htake] at htake'
  have hcounts : 0 + count = 0 + other := congrArg Prod.fst htake'
  omega

end Term

/-! ## The printer -/

namespace Printer

open Term (Resembles)

theorem number_of_resembles {count : Nat} {term : Term} (h : Resembles count term) :
    number term = toString count := by
  obtain ⟨sort, arguments, htake⟩ := h.takeIncrements 0
  unfold number
  rw [htake, Nat.zero_add]
  rfl

theorem number_of_not_resembles {term : Term} (h : ∀ count, ¬ Resembles count term) :
    number term = term.text := by
  unfold number
  split
  · rename_i total operation sort arguments htake
    by_cases hzero : operation = "zero"
    · subst hzero
      obtain ⟨count, -, hresembles⟩ := Term.resembles_of_takeIncrements htake
      exact absurd hresembles (h count)
    · exact if_neg hzero
  · rfl

/-- The printer of numbers writes a number in decimal. -/
theorem number_ofCount (count : Nat) : number (.ofCount count) = toString count :=
  number_of_resembles (Term.resembles_ofCount count)

end Printer

/-! ## Texts and numerals -/

namespace Term

/-- A term is written with its sort, and so with a colon. -/
theorem colon_mem_text (term : Term) : ':' ∈ term.text.toList := by
  cases term with
  | app operation sort arguments =>
    have htext : (app operation sort arguments).text =
        renderName none sort operation ++ "(" ++
          commaSeparated (arguments.map (render none)) ++ ")" :=
      render_app none operation sort arguments
    rw [htext]
    simp [renderName]
  | var name sort =>
    have htext : (var name sort).text = renderName none sort name := render_var none name sort
    rw [htext]
    simp [renderName]

/-- The text of a term is no numeral. -/
theorem text_ne_toString (term : Term) (count : Nat) : term.text ≠ toString count := by
  intro heq
  have hcolon : ':' ∈ (toString count).toList := heq ▸ term.colon_mem_text
  have hdigit := Numeral.isDigit_of_mem_toString hcolon
  exact absurd hdigit (by decide)

/-- The printer of numbers shows the term as it should: a number in decimal, and
    any other term by its text. -/
structure ShownDuly (term : Term) : Prop where
  number : ∀ count, term = .ofCount count → Printer.number term = toString count
  text : (∀ count, term ≠ .ofCount count) → Printer.number term = term.text

theorem number_eq_toString_iff {term : Term} {count : Nat} :
    Printer.number term = toString count ↔ term.Resembles count := by
  constructor
  · intro h
    by_cases hsome : ∃ other, term.Resembles other
    · obtain ⟨other, hresembles⟩ := hsome
      have hshown := Printer.number_of_resembles hresembles
      have hsame : other = count := Numeral.toString_injective (hshown.symm.trans h)
      exact hsame ▸ hresembles
    · -- what resembles no number is shown by its text, which has a colon
      have hshown := Printer.number_of_not_resembles (not_exists.mp hsome)
      exact absurd (hshown.symm.trans h) (term.text_ne_toString count)
  · exact Printer.number_of_resembles

theorem shownDuly_iff {term : Term} :
    term.ShownDuly ↔ ∀ count, term.Resembles count → term = .ofCount count := by
  constructor
  · intro hduly count hresembles
    have hshown := Printer.number_of_resembles hresembles
    by_cases hnumber : ∃ other, term = .ofCount other
    · obtain ⟨other, rfl⟩ := hnumber
      rw [hresembles.unique (resembles_ofCount other)]
    · have htext := hduly.text (not_exists.mp hnumber)
      exact absurd (htext.symm.trans hshown) (term.text_ne_toString count)
  · intro honly
    constructor
    · intro count hterm
      exact hterm ▸ Printer.number_ofCount count
    · intro hne
      exact Printer.number_of_not_resembles fun count h => hne count (honly count h)

end Term

/-- The printer of numbers shows a number for the terms that resemble it, and any
    other term by its text. So a term is shown as it should be exactly when it
    resembles no number but itself, and then it is not shown as a number that it
    is not. -/
theorem Printer.number_iff_resembles (term : Term) :
    (∀ count, number term = toString count ↔ term.Resembles count) ∧
      ((∀ count, ¬ term.Resembles count) → number term = term.text) ∧
      (term.ShownDuly ↔ ∀ count, term.Resembles count → term = .ofCount count) ∧
      (term.ShownDuly ↔
        ∀ count, number term = number (.ofCount count) → term = .ofCount count) := by
  have hshown : ∀ count, number term = number (.ofCount count) ↔ term.Resembles count := by
    intro count
    rw [number_ofCount]
    exact Term.number_eq_toString_iff
  refine ⟨fun _ => Term.number_eq_toString_iff, number_of_not_resembles, Term.shownDuly_iff, ?_⟩
  simp only [hshown]
  exact Term.shownDuly_iff

/-- Three is shown as a number. A sum that is stuck under an increment is shown by
    its text, and so are both as they should be. -/
theorem Printer.three_and_stuck_sum_shown :
    let stuck := Term.increment
      (.app "add" numberSort [.var "X" numberSort, .constant "zero" numberSort])
    (∀ count, ¬ stuck.Resembles count) ∧
      Printer.number stuck = "Number:inc(Number:add(Number:X, Number:zero()))" ∧
      stuck.ShownDuly ∧ Printer.number (.ofCount 3) = "3" ∧ (Term.ofCount 3).ShownDuly := by
  intro stuck
  have hstuck : ∀ count, ¬ stuck.Resembles count := by
    intro count h
    obtain ⟨sort, arguments, htake⟩ := h.takeIncrements 0
    have hname : "add" = "zero" := congrArg (fun taken => taken.2.name) htake
    exact absurd hname (by decide)
  have htext : stuck.text = "Number:inc(Number:add(Number:X, Number:zero()))" := by cbv
  obtain ⟨-, hother, hduly, -⟩ := number_iff_resembles stuck
  obtain ⟨hnumber, -, hduly', -⟩ := number_iff_resembles (.ofCount 3)
  have hthree := Term.resembles_ofCount 3
  refine ⟨hstuck, (hother hstuck).trans htext, ?_, (hnumber 3).mpr hthree, ?_⟩
  · exact hduly.mpr fun count h => absurd h (hstuck count)
  · exact hduly'.mpr fun count h => by rw [h.unique hthree]

/-- `zero` applied to a variable is shown as the number zero, and one above the
    zero of another sort as the number one. Neither is a number. -/
theorem Printer.lookalikes_shown_as_numbers :
    let applied := Term.app "zero" numberSort [.var "X" numberSort]
    let foreign := Term.increment (.constant "zero" "Stack")
    (applied.sort = numberSort ∧ (∀ count, applied ≠ .ofCount count) ∧
        Printer.number applied = "0" ∧ applied.text = "Number:zero(Number:X)" ∧
        ¬ applied.ShownDuly) ∧
      foreign.sort = numberSort ∧ (∀ count, foreign ≠ .ofCount count) ∧
        Printer.number foreign = "1" ∧ foreign.text = "Number:inc(Stack:zero())" ∧
        ¬ foreign.ShownDuly := by
  intro applied foreign
  have happlied : ∀ count, applied ≠ .ofCount count := by
    intro count h
    cases count with
    | zero => simp [applied, Term.ofCount_zero, Term.constant] at h
    | succ count => simp [applied, Term.ofCount_succ, Term.increment] at h
  have hforeign : ∀ count, foreign ≠ .ofCount count := by
    intro count h
    cases count with
    | zero => simp [foreign, Term.ofCount_zero, Term.constant, Term.increment] at h
    | succ count =>
      rw [Term.ofCount_succ] at h
      have harguments : [Term.constant "zero" "Stack"] = [Term.ofCount count] :=
        congrArg Term.arguments h
      have hsort : "Stack" = numberSort := by
        rw [← Term.sort_ofCount count, ← List.singleton_inj.mp harguments]
        rfl
      exact absurd hsort (by decide)
  have hzero : Printer.number applied = "0" := by cbv
  have hone : Printer.number foreign = "1" := by cbv
  have happliedText : applied.text = "Number:zero(Number:X)" := by cbv
  have hforeignText : foreign.text = "Number:inc(Stack:zero())" := by cbv
  refine ⟨⟨rfl, happlied, hzero, happliedText, ?_⟩, rfl, hforeign, hone, hforeignText, ?_⟩
  · intro h
    have htext := h.text happlied
    rw [hzero, happliedText] at htext
    exact absurd htext (by decide)
  · intro h
    have htext := h.text hforeign
    rw [hone, hforeignText] at htext
    exact absurd htext (by decide)

end Equational
