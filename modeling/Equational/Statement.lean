import Equational.Term.Parser

/-! # Statements

    A statement is a term, or assigns a term to a name:

        statement ::= identifier "=" term | term

    A text holds one statement or more, with nothing between them. Terms are
    read as they are on their own, without a signature.
-/

namespace Equational

/-- A term to evaluate, and the name it is to be kept under, if any. -/
inductive Statement where
  | assignment (name : String) (term : Term)
  | expression (term : Term)
deriving DecidableEq, Repr

namespace Statement

/-- The term that the statement evaluates. -/
def term : Statement → Term
  | .assignment _ term => term
  | .expression term => term

/-- Reads one statement. -/
def read (scope : Scope) :
    (tokens : List Token) → Except Error (Parsed tokens.length Statement)
  | ⟨.identifier name, _⟩ :: ⟨.symbol .equal, _⟩ :: rest => do
    let term ← scope.readTerm rest
    return ⟨.assignment name term.value, term.rest,
      Nat.lt_trans term.fewer (Nat.lt_succ_of_lt (Nat.lt_succ_self _))⟩
  | tokens => do
    let term ← scope.readTerm tokens
    return ⟨.expression term.value, term.rest, term.fewer⟩

/-- Reads statements up to the end. -/
def readAll (scope : Scope) (tokens : List Token) : Except Error (List Statement) :=
  match tokens with
  | [] => .ok []
  | tokens => do
    let statement ← read scope tokens
    let statements ← readAll scope statement.rest
    return statement.value :: statements
termination_by tokens.length
decreasing_by exact statement.fewer

/-- The statements that all of the tokens make up, at least one. -/
def ofTokens (scope : Scope) : List Token → Except Error (List Statement)
  | [] => .error (.grammar .noStatements)
  | tokens => readAll scope tokens

/-- The statements that a whole text is. -/
def parse (text defaultSort : String) (literals : List Literal) :
    Except Error (List Statement) := do
  let tokens ← readTokens text
  ofTokens ⟨defaultSort, none, literals⟩ tokens

end Statement

end Equational
