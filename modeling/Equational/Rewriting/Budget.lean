import Equational.Rewriting.Normalization

/-! # Budgets

    A budget limits the firings of one normalization, or of several that share
    it, or leaves them without limit. It counts the firings made so far, those
    of failed runs too.

    A run without limit may go on forever. It is carried out with **fuel**, an
    allowance that the caller chooses; when the fuel runs out, the run is
    reported as exhausted and not as an error of the program.
-/

namespace Equational

/-- A limit on firings, if there is one, and the firings made. -/
structure Budget where
  limit : Option Nat
  used : Nat
deriving DecidableEq, Repr

namespace Budget

/-- Nothing is used yet. -/
def new (limit : Option Nat) : Budget :=
  ⟨limit, 0⟩

/-- The firings that the next run may make. -/
def allowance (budget : Budget) (fuel : Nat) : Nat :=
  match budget.limit with
  -- nothing, if more was used than the limit allows
  | some limit => limit - budget.used
  | none => fuel

/-- A limit that is reached is an error of the run. -/
def explain (budget : Budget) : Stop → Stop
  | .failed error => .failed error
  | .exhausted sort =>
    match budget.limit with
    | some limit => .failed (.rewrite (.stepLimitExceeded sort limit))
    | none => .exhausted sort

end Budget

/-- Normalizes a term, starting under `specification`, at the expense of a
    budget. -/
def Theory.normalize (theory : Theory) (fuel : Nat) (budget : Budget)
    (specification : Specification) (term : Term) : Except Stop Term × Budget :=
  let allowance := budget.allowance fuel
  let run := theory.normalizeWithin specification allowance term
  -- a run that fails is charged for its firings too
  (run.outcome.mapError budget.explain,
    { budget with used := budget.used + (allowance - run.left) })

end Equational
