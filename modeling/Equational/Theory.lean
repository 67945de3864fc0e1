import Std.Data.TreeMap
import Equational.Specification.Basic

/-! # Theories

    A theory holds specifications by the name of their sort. Names come in the
    order of their bytes. A specification is always found under its own name,
    so that a term handed to the specification of its sort is rewritten there
    and not handed on again.
-/

namespace Equational

/-- The specifications of finitely many sorts. -/
structure Theory where
  specifications : Std.TreeMap String Specification
  named : ∀ {sort : String} {specification : Specification},
    specifications[sort]? = some specification → specification.name = sort

namespace Theory

/-- No sort is specified. -/
def empty : Theory :=
  ⟨∅, by simp⟩

instance : EmptyCollection Theory := ⟨empty⟩

/-- The specification of a sort. -/
def lookup? (theory : Theory) (sort : String) : Option Specification :=
  theory.specifications[sort]?

@[simp] theorem lookup?_empty (sort : String) : (∅ : Theory).lookup? sort = none :=
  Std.TreeMap.getElem?_emptyc

/-- The specification of a sort, which has to be there. -/
def lookup (theory : Theory) (sort : String) : Except Error Specification :=
  match theory.lookup? sort with
  | some specification => .ok specification
  | none => .error (.undefinedSort sort)

/-- Whether a sort is specified. -/
def contains (theory : Theory) (sort : String) : Bool :=
  (theory.lookup? sort).isSome

/-- The specified sorts, in ascending order. -/
def names (theory : Theory) : List String :=
  theory.specifications.keys

/-- The number of specified sorts. -/
def size (theory : Theory) : Nat :=
  theory.specifications.size

/-- Whether no sort is specified. -/
def isEmpty (theory : Theory) : Bool :=
  theory.specifications.isEmpty

/-- Adds a specification, in place of the one that its sort had. -/
def register (theory : Theory) (specification : Specification) : Theory where
  specifications := theory.specifications.insert specification.name specification
  named := by
    intro sort found h
    rw [Std.TreeMap.getElem?_insert] at h
    split at h
    · -- `sort` is the new specification's own name
      rename_i heq
      rw [← Option.some.inj h]
      exact Std.LawfulEqCmp.eq_of_compare heq
    · exact theory.named h

/-- Takes the specification of a sort away. -/
def unregister (theory : Theory) (sort : String) : Theory where
  specifications := theory.specifications.erase sort
  named := by
    intro other found h
    rw [Std.TreeMap.getElem?_erase] at h
    split at h
    · cases h
    · exact theory.named h

theorem lookup?_name {theory : Theory} {sort : String} {specification : Specification}
    (h : theory.lookup? sort = some specification) : specification.name = sort :=
  theory.named h

/-- The sort of the value that a term denotes: the declared result sort of the
    operation at its head, or else the sort it is written in. -/
def sortOf (theory : Theory) : Term → String
  | .app operation sort _ =>
    match (theory.lookup? sort).bind (·.operation? operation) with
    | some declared => declared.resultSort
    -- nothing is declared for it, so it stands for itself
    | none => sort
  | .var _ sort => sort

end Theory

end Equational
