import Equational.Environment.Basic

/-! # Calls

    A **value** is a normalized term with the sort that it denotes a value of.
    A call of an operation checks the sorts of its arguments against the
    operation's declaration, applies the operation to their terms, and
    normalizes the result under the specification of its sort. If a check
    fails, no term is built.
-/

namespace Equational

/-- A normalized term and the sort of its value. -/
structure Value where
  sort : String
  term : Term
deriving DecidableEq, Repr

/-- The term of the value as text. -/
def Value.text (value : Value) : String :=
  value.term.text

namespace Operation

/-- Refuses the first argument, from `position` on, whose sort is not the one
    declared. -/
def checkSorts (operation : Operation) (position : Nat) :
    (expected found : List String) → Except CallError Unit
  | sort :: expected, sort' :: found =>
    if sort' = sort then checkSorts operation (position + 1) expected found
    else .error (.argumentSortMismatch operation.name position sort sort')
  | _, _ => .ok ()

end Operation

/-- The operation of a name, if it takes arguments of the sorts given. -/
def Signature.checkCall (signature : Signature) (name : String) (sorts : List String) :
    Except CallError Operation :=
  match signature.operation? name with
  | none => .error (.unknownOperation signature.name name)
  | some operation =>
    if sorts.length = operation.arity then
      (operation.checkSorts 0 operation.argumentSorts sorts).map fun _ => operation
    else .error (.arityMismatch operation.name operation.arity sorts.length)

namespace Environment

/-- Calls an operation of a specification, which need not be loaded. -/
def dispatch (environment : Environment) (fuel : Nat) (specification : Specification)
    (operation : String) (arguments : List Value) : Except Stop Value :=
  match specification.checkCall operation (arguments.map Value.sort) with
  | .error error => .error (.failed (.call error))
  | .ok declared =>
    match environment.theory.lookup declared.resultSort with
    | .error error => .error (.failed error)
    | .ok owner =>
      -- written in the sort of the specification, normalized under that of the result
      let term := .app declared.name specification.name (arguments.map Value.term)
      (environment.normalizeUnder fuel owner term).map (⟨declared.resultSort, ·⟩)

/-- Calls an operation of the specification loaded for a sort. -/
def call (environment : Environment) (fuel : Nat) (sort operation : String)
    (arguments : List Value) : Except Stop Value :=
  match environment.theory.lookup sort with
  | .ok specification => environment.dispatch fuel specification operation arguments
  | .error error => .error (.failed error)

/-- Calls an operation of the receiver's sort with the receiver as the first
    argument. -/
def callOn (environment : Environment) (fuel : Nat) (receiver : Value) (operation : String)
    (arguments : List Value) : Except Stop Value :=
  environment.call fuel receiver.sort operation (receiver :: arguments)

end Environment

end Equational
