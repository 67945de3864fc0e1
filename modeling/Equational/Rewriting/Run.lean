import Equational.Error

/-! # Bounded runs

    Rewriting need not end, so a run is given an **allowance**: the number of
    rule applications, or firings, that it may make. It tells its outcome and
    what is left of the allowance.
-/

namespace Equational

/-- Why a run has no answer: an error, or a firing in some sort that the
    allowance does not cover. -/
inductive Stop where
  | failed (error : Error)
  | exhausted (sort : String)
deriving DecidableEq, Repr

/-- How a run ended, and the firings it could still have made. -/
structure Run (α : Type) where
  outcome : Except Stop α
  left : Nat

end Equational
