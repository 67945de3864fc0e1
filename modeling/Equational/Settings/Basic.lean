import Equational.Rewriting.Budget

/-! # Settings

    How far terms may be rewritten, and whether printers are used. What is not
    set rewrites without limit and prints through the printers.
-/

namespace Equational

/-- The settings of an environment. -/
structure Settings where
  /-- The firings that one normalization may make. -/
  maxRewriteSteps : Option Nat
  /-- Whether terms are shown with the help of printers. -/
  prettyPrint : Bool
deriving DecidableEq, Repr

namespace Settings

/-- The settings where nothing is set. -/
def standard : Settings :=
  ⟨none, true⟩

/-- The budget of one normalization. -/
def budget (settings : Settings) : Budget :=
  .new settings.maxRewriteSteps

end Settings

end Equational
