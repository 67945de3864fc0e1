import Equational.Environment.Call
import Equational.Statement

/-! # Sessions

    A session evaluates statements in an environment and keeps the values that
    they assign to names. A statement's term is instantiated with the variables
    assigned so far and normalized; the value of a text is that of its last
    statement. Evaluation ends at the first statement that fails, and the
    assignments before it stay.
-/

namespace Equational

/-- The variables assigned so far. -/
structure Session where
  bindings : Bindings

namespace Session

/-- No variable is assigned. -/
def new : Session :=
  ⟨∅⟩

/-- Forgets every variable. -/
def clear (_ : Session) : Session :=
  ⟨∅⟩

/-- The term assigned to a name. -/
def assigned? (session : Session) (name : String) : Option Term :=
  session.bindings.get? name

/-- The value of a term under the variables. -/
def evaluateTerm (session : Session) (environment : Environment) (fuel : Nat) (term : Term) :
    Except Stop Value :=
  match term.substitute session.bindings with
  | .error error => .error (.failed (.rewrite error))
  | .ok instantiated =>
    (environment.normalize fuel instantiated).map (⟨environment.theory.sortOf instantiated, ·⟩)

/-- Keeps a value under the name that a statement assigns it to, if any. -/
def assign (session : Session) (value : Value) : Statement → Session
  | .assignment name _ => ⟨session.bindings.insert name value.term⟩
  | .expression _ => session

/-- Evaluates one statement after another, and gives the value of the last. -/
def evaluateAll (session : Session) (environment : Environment) (fuel : Nat) :
    List Statement → Except Stop Value × Session
  | [] => (.error (.failed (.grammar .noStatements)), session)
  | statement :: rest =>
    match session.evaluateTerm environment fuel statement.term with
    -- the assignments before it stay
    | .error reason => (.error reason, session)
    | .ok value =>
      match rest with
      | [] => (.ok value, session.assign value statement)
      | rest => evaluateAll (session.assign value statement) environment fuel rest

/-- Evaluates the statements of a text. A text that cannot be read evaluates
    none. -/
def evaluate (session : Session) (environment : Environment) (fuel : Nat)
    (text defaultSort : String) : Except Stop Value × Session :=
  match Statement.parse text defaultSort environment.literals with
  | .error error => (.error (.failed error), session)
  | .ok statements => session.evaluateAll environment fuel statements

end Session

end Equational
