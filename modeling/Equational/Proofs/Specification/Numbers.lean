import Equational.Specification.Basic
import Equational.Term.Literal

/-! # Numbers with addition

    The specification that most others build on: numbers counted up from
    `zero()` by `inc(_)`, and their sum, defined by recursion on the first
    summand. `Term.ofCount` gives its values.
-/

namespace Equational

namespace Term

/-- The sum of two numbers, not worked out. -/
def plus (left right : Term) : Term :=
  .app "add" numberSort [left, right]

end Term

namespace Specification

/-- Numbers, with the rules `add(zero(), Y) = Y` and
    `add(inc(X), Y) = inc(add(X, Y))`. -/
def numbers : Specification where
  name := numberSort
  dependencies := []
  operations :=
    [⟨"zero", [], numberSort⟩, ⟨"inc", [numberSort], numberSort⟩,
      ⟨"add", [numberSort, numberSort], numberSort⟩]
  rules :=
    let x := Term.var "X" numberSort
    let y := Term.var "Y" numberSort
    [⟨.plus (.ofCount 0) y, y, rfl⟩, ⟨.plus x.increment y, (Term.plus x y).increment, rfl⟩]

end Specification

end Equational
