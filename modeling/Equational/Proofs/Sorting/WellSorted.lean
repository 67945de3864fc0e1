import Equational.Proofs.Rewriting.Derivation
import Equational.Proofs.Specification.Numbers
import Equational.Proofs.Term.Instance
import Equational.Proofs.Term.Subterm

/-! # Well-sorted terms

    Rewriting does not look at the sorts that operations are declared with. A
    term is **well-sorted** when it keeps to them all the same: every application
    in it is of a specified sort, has a declared operation, and its arguments are
    terms for values of the sorts declared for them.

    The sort that a term is written in is not the sort of its value. The first is
    the sort whose specification declares the operation at the head, the second
    is that operation's result sort (`Theory.sortOf`). For a variable nothing is
    declared, so the sort of its value is taken from outside (`Theory.sortUnder`).

    An instance of a well-sorted term is well-sorted exactly when its variables
    are assigned well-sorted terms for values of their sorts: one direction is
    what a template needs (`WellSorted.instantiate`), the other is what a pattern
    that matched has to offer (`WellSorted.assigned`).
-/

namespace Equational

namespace Theory

variable {theory : Theory}

/-! ## Declarations -/

/-- The declaration of an operation, if its sort is specified and declares it. -/
def declared? (theory : Theory) (sort operation : String) : Option Operation :=
  (theory.lookup? sort).bind (·.operation? operation)

theorem declared?_eq_some_iff {sort operation : String} {declared : Operation} :
    theory.declared? sort operation = some declared ↔
      ∃ specification, theory.lookup? sort = some specification ∧
        specification.operation? operation = some declared :=
  Option.bind_eq_some_iff

theorem sortOf_app {sort operation : String} {declared : Operation}
    (h : theory.declared? sort operation = some declared) (arguments : List Term) :
    theory.sortOf (.app operation sort arguments) = declared.resultSort := by
  unfold declared? at h
  rw [sortOf, h]

/-- The sort of a term's value, where variables stand for values of given
    sorts. -/
def sortUnder (theory : Theory) (sorts : String → String) : Term → String
  | .var name _ => sorts name
  | .app operation sort arguments => theory.sortOf (.app operation sort arguments)

/-! ## Well-sorted terms -/

section

variable {valueSort : Term → String}

/-- The arguments of the term are for values of the sorts declared for them. -/
def SortedAt (theory : Theory) (valueSort : Term → String) : Term → Prop
  | .app operation sort arguments =>
    ∃ declared, theory.declared? sort operation = some declared ∧
      arguments.map valueSort = declared.argumentSorts
  | .var _ _ => True

/-- So it is throughout the term. -/
def WellSorted (theory : Theory) (valueSort : Term → String) (term : Term) : Prop :=
  ∀ u, Term.Subterm u term → theory.SortedAt valueSort u

@[simp] theorem wellSorted_var {name sort : String} :
    theory.WellSorted valueSort (.var name sort) :=
  Term.forall_subterm_var.mpr trivial

theorem wellSorted_app {operation sort : String} {arguments : List Term} :
    theory.WellSorted valueSort (.app operation sort arguments) ↔
      (∃ declared, theory.declared? sort operation = some declared ∧
        arguments.map valueSort = declared.argumentSorts) ∧
        ∀ a ∈ arguments, theory.WellSorted valueSort a :=
  Term.forall_subterm_app

end

/-- A ground and well-sorted term for a value of a sort. -/
structure HasSort (theory : Theory) (term : Term) (sort : String) : Prop where
  ground : term.isGround
  wellSorted : theory.WellSorted theory.sortOf term
  sortOf_eq : theory.sortOf term = sort

/-- The arguments of a ground and well-sorted term are such terms too. -/
theorem HasSort.argument {operation sort valueSort : String} {arguments : List Term}
    (h : theory.HasSort (.app operation sort arguments) valueSort) {a : Term} (ha : a ∈ arguments) :
    theory.HasSort a (theory.sortOf a) := by
  have hground := h.ground
  rw [Term.isGround, Term.allGround_iff] at hground
  exact ⟨hground a ha, (wellSorted_app.mp h.wellSorted).2 a ha, rfl⟩

/-- A declared operation makes a term of the terms for its arguments. -/
theorem hasSort_app {operation sort : String} {declared : Operation} {arguments : List Term}
    (hdeclared : theory.declared? sort operation = some declared)
    (hsorts : arguments.map theory.sortOf = declared.argumentSorts)
    (each : ∀ a ∈ arguments, ∃ valueSort, theory.HasSort a valueSort) :
    theory.HasSort (.app operation sort arguments) declared.resultSort := by
  refine ⟨?_, ?_, sortOf_app hdeclared arguments⟩
  · rw [Term.isGround, Term.allGround_iff]
    intro a ha
    obtain ⟨_, h⟩ := each a ha
    exact h.ground
  · refine wellSorted_app.mpr ⟨⟨declared, hdeclared, hsorts⟩, ?_⟩
    intro a ha
    obtain ⟨_, h⟩ := each a ha
    exact h.wellSorted

/-- The sort in which a ground and well-sorted term is written is specified. -/
theorem HasSort.exists_lookup? {term : Term} {sort : String} (h : theory.HasSort term sort) :
    ∃ owner, theory.lookup? term.sort = some owner := by
  cases term with
  | var name sort =>
    have hground := h.ground
    simp [Term.isGround] at hground
  | app operation sort arguments =>
    obtain ⟨declared, hdeclared, _⟩ := (wellSorted_app.mp h.wellSorted).1
    obtain ⟨owner, hlookup, _⟩ := declared?_eq_some_iff.mp hdeclared
    exact ⟨owner, hlookup⟩

/-! ## Instances -/

section instances

variable {sorts : String → String} {assignment : String → Term}

/-- A variable that is replaced by a term for a value of its sort does not change
    the sorts of the terms that it stands in. -/
theorem sortOf_instantiate {t : Term}
    (h : ∀ name ∈ t.variableNames, theory.sortOf (assignment name) = sorts name) :
    theory.sortOf (t.instantiate assignment) = theory.sortUnder sorts t := by
  cases t with
  | var name sort => exact h name (by simp [Term.variableNames])
  | app operation sort arguments => rfl

/-- A well-sorted term in which well-sorted terms are put for its variables, each
    for a value of the variable's sort, is well-sorted. -/
theorem WellSorted.instantiate {t : Term} (h : theory.WellSorted (theory.sortUnder sorts) t)
    (assigned : ∀ name ∈ t.variableNames, theory.WellSorted theory.sortOf (assignment name) ∧
      theory.sortOf (assignment name) = sorts name) :
    theory.WellSorted theory.sortOf (t.instantiate assignment) := by
  induction t using Term.induct with
  | var name sort => exact (assigned name (by simp [Term.variableNames])).1
  | app operation sort arguments ih =>
    obtain ⟨⟨declared, hdeclared, hsorts⟩, harguments⟩ := wellSorted_app.mp h
    have hassigned : ∀ a ∈ arguments, ∀ name ∈ a.variableNames,
        theory.WellSorted theory.sortOf (assignment name) ∧
          theory.sortOf (assignment name) = sorts name := by
      intro a ha name hname
      exact assigned name (Term.mem_variableNamesAll.mpr ⟨a, ha, hname⟩)
    rw [Term.instantiate, Term.instantiateAll_eq_map]
    apply wellSorted_app.mpr
    constructor
    · refine ⟨declared, hdeclared, ?_⟩
      rw [← hsorts, List.map_map]
      apply List.map_congr_left
      intro a ha
      exact sortOf_instantiate fun name hname => (hassigned a ha name hname).2
    · intro u hu
      obtain ⟨a, ha, rfl⟩ := List.mem_map.mp hu
      exact ih a ha (harguments a ha) (hassigned a ha)

/-- What stands for the variables in a well-sorted instance of a well-sorted term
    is well-sorted, and for values of the variables' sorts. The instance of a
    variable shows nothing of the variable's sort, so its own has to be known. -/
theorem WellSorted.assigned {t : Term} (h : theory.WellSorted (theory.sortUnder sorts) t)
    (hinstance : theory.WellSorted theory.sortOf (t.instantiate assignment))
    (hsort : theory.sortOf (t.instantiate assignment) = theory.sortUnder sorts t) :
    ∀ name ∈ t.variableNames, theory.WellSorted theory.sortOf (assignment name) ∧
      theory.sortOf (assignment name) = sorts name := by
  induction t using Term.induct with
  | var name sort =>
    intro other hother
    have hname : other = name := by simpa [Term.variableNames] using hother
    rw [hname]
    exact ⟨hinstance, hsort⟩
  | app operation sort arguments ih =>
    rw [Term.instantiate, Term.instantiateAll_eq_map] at hinstance
    obtain ⟨⟨declared, hdeclared, hsorts⟩, harguments⟩ := wellSorted_app.mp h
    obtain ⟨⟨declared', hdeclared', hsorts'⟩, harguments'⟩ := wellSorted_app.mp hinstance
    -- both have the arguments that the one operation is declared with
    have hsame : declared' = declared := Option.some.inj (hdeclared'.symm.trans hdeclared)
    have heach : ∀ a ∈ arguments,
        theory.sortOf (a.instantiate assignment) = theory.sortUnder sorts a := by
      rw [hsame, ← hsorts, List.map_map] at hsorts'
      exact List.map_inj_left.mp hsorts'
    intro name hname
    obtain ⟨a, ha, hmem⟩ := Term.mem_variableNamesAll.mp hname
    exact ih a ha (harguments a ha) (harguments' _ (List.mem_map_of_mem ha)) (heach a ha) name hmem

end instances

/-! ## Numbers -/

section numbers

variable (registered : theory.Registered .numbers)

include registered

theorem declared?_zero : theory.declared? numberSort "zero" = some ⟨"zero", [], numberSort⟩ := by
  rw [declared?, show theory.lookup? numberSort = some .numbers from registered]
  rfl

theorem declared?_inc :
    theory.declared? numberSort "inc" = some ⟨"inc", [numberSort], numberSort⟩ := by
  rw [declared?, show theory.lookup? numberSort = some .numbers from registered]
  rfl

theorem declared?_add :
    theory.declared? numberSort "add" = some ⟨"add", [numberSort, numberSort], numberSort⟩ := by
  rw [declared?, show theory.lookup? numberSort = some .numbers from registered]
  rfl

/-- Where numbers are specified, their values are well-sorted. -/
theorem hasSort_ofCount (count : Nat) : theory.HasSort (.ofCount count) numberSort := by
  induction count with
  | zero => exact hasSort_app (declared?_zero registered) rfl (by simp)
  | succ count ih =>
    rw [Term.ofCount_succ]
    apply hasSort_app (declared?_inc registered)
    · simp [ih.sortOf_eq]
    · simpa using ⟨numberSort, ih⟩

end numbers

end Theory

end Equational
