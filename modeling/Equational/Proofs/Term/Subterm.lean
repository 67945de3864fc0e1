import Equational.Term.Basic

/-! # Subterms

    A term stands in another when it is that term, one of its arguments, an
    argument of one of those, and so on. What is asked of every subterm can be
    asked of the root and then of each argument on its own.
-/

namespace Equational

namespace Term

/-- `Subterm u t`: the term `u` stands in `t`, at whatever depth. -/
inductive Subterm : Term → Term → Prop where
  | refl (t : Term) : Subterm t t
  | argument {u a : Term} {arguments : List Term} (operation sort : String) :
      a ∈ arguments → Subterm u a → Subterm u (.app operation sort arguments)

/-- Nothing else stands in a term that has no arguments. -/
theorem eq_of_subterm_of_arguments_eq_nil {u t : Term} (h : Subterm u t)
    (harguments : t.arguments = []) : u = t := by
  cases h with
  | refl => rfl
  | argument _ _ ha =>
    rw [arguments] at harguments
    rw [harguments] at ha
    exact absurd ha List.not_mem_nil

variable {motive : Term → Prop}

/-- Nothing stands in a variable but the variable. -/
theorem forall_subterm_var {name sort : String} :
    (∀ u, Subterm u (.var name sort) → motive u) ↔ motive (.var name sort) := by
  constructor
  · intro h
    exact h _ (.refl _)
  · intro h u hu
    cases hu with
    | refl => exact h

/-- What holds throughout an application holds at its root and throughout each
    argument. -/
theorem forall_subterm_app {operation sort : String} {arguments : List Term} :
    (∀ u, Subterm u (.app operation sort arguments) → motive u) ↔
      motive (.app operation sort arguments) ∧
        ∀ a ∈ arguments, ∀ u, Subterm u a → motive u := by
  constructor
  · intro h
    exact ⟨h _ (.refl _), fun a ha u hu => h u (.argument operation sort ha hu)⟩
  · rintro ⟨hroot, harguments⟩ u hu
    cases hu with
    | refl => exact hroot
    | argument _ _ ha hu => exact harguments _ ha _ hu

/-- What stands in a ground term is an application. -/
theorem isApplication_of_isGround {term : Term} (h : term.isGround = true) :
    ∀ u : Term, u.Subterm term → u.isApplication = true := by
  induction term using Term.induct with
  | var name sort => simp [isGround] at h
  | app operation sort arguments ih =>
    have harguments := allGround_iff.mp h
    exact forall_subterm_app.mpr ⟨rfl, fun a ha => ih a ha (harguments a ha)⟩

end Term

end Equational
