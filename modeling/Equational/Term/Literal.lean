import Equational.Term.Rendering
import Equational.Text.Numeral

/-! # Numbers and truth values

    Most sets of specifications have a sort of numbers, counted up from
    `zero()` by `inc(_)`, and a sort of truth values. This module holds both as
    terms, **literals** that read their usual notation, and printers that write
    it.

    A literal is offered the bare names of a text, those that no parenthesis
    follows; of several literals the first that accepts the name decides.
-/

namespace Equational

/-- Reads bare names, or declines them: the term that a name, written in a
    sort, stands for. -/
abbrev Literal := (name sort : String) → Option Term

/-- The term of the first literal that accepts the name. -/
def Literal.read? (literals : List Literal) (name sort : String) : Option Term :=
  literals.findSome? fun literal => literal name sort

/-- The sort of numbers. -/
def numberSort : String := "Number"

/-- The sort of truth values. -/
def truthSort : String := "bool"

namespace Term

/-- The number one above. -/
def increment (term : Term) : Term :=
  .app "inc" numberSort [term]

/-- The number `count` above. -/
def addCount : Nat → Term → Term
  | 0, term => term
  | count + 1, term => addCount count term.increment

/-- A number as a term. -/
def ofCount (count : Nat) : Term :=
  addCount count (constant "zero" numberSort)

theorem ofCount_zero : ofCount 0 = constant "zero" numberSort := rfl

theorem addCount_increment (count : Nat) (term : Term) :
    addCount count term.increment = (addCount count term).increment := by
  induction count generalizing term with
  | zero => rfl
  | succ count ih => exact ih term.increment

theorem ofCount_succ (count : Nat) : ofCount (count + 1) = (ofCount count).increment :=
  addCount_increment count _

@[simp] theorem sort_ofCount (count : Nat) : (ofCount count).sort = numberSort := by
  cases count with
  | zero => rfl
  | succ count =>
    rw [ofCount_succ]
    rfl

/-- Takes off the unary applications of `inc`, in whatever sort, and adds their
    number to `count`. -/
def takeIncrements (count : Nat) : Term → Nat × Term
  | .app operation sort [argument] =>
    if operation = "inc" then takeIncrements (count + 1) argument
    else (count, .app operation sort [argument])
  | term => (count, term)

end Term

namespace Literal

/-- Accepts unsigned numerals below 2^32, whatever sort they are written in. -/
def number : Literal := fun name _ =>
  match Numeral.read 0x1_0000_0000 name.toList with
  | .ok count => some (Term.ofCount count)
  | .error _ => none

/-- Accepts `true` and `false`. -/
def truth : Literal := fun name _ =>
  if name = "true" ∨ name = "false" then some (Term.constant name truthSort) else none

/-- Numbers, then truth values. -/
def standard : List Literal :=
  [number, truth]

end Literal

namespace Printer

/-- Writes increments of an application of `zero` as their number, and leaves
    all other terms as they are. -/
def number : Printer := fun term =>
  match term.takeIncrements 0 with
  | (count, .app operation _ _) => if operation = "zero" then toString count else term.text
  | (_, .var _ _) => term.text

/-- Writes the operation's name alone. -/
def truth : Printer := Term.name

end Printer

end Equational
