import Equational.Settings.Basic
import Equational.Specification.Parser

/-! # Environments

    An environment is what a host works in: a theory of loaded specifications,
    printers for some of their sorts, literals for the terms that it reads, and
    settings. The literals serve terms and statements; a specification is read
    with literals of its own.

    Whatever rewrites takes **fuel** for the case that the settings give no
    limit.
-/

namespace Equational

/-- The theory, and how its terms are written and read. -/
structure Environment where
  theory : Theory
  printers : Printers
  literals : List Literal
  settings : Settings

namespace Environment

/-- Nothing is loaded. -/
def new (settings : Settings) : Environment :=
  ⟨∅, ∅, [], settings⟩

/-! ## Contents -/

/-- Adds a specification, in place of the one that its sort had. -/
def register (environment : Environment) (specification : Specification) : Environment :=
  { environment with theory := environment.theory.register specification }

/-- Reads a specification and adds it. -/
def load (environment : Environment) (text : String) (literals : List Literal) :
    Except Error (Specification × Environment) := do
  let specification ← Specification.parse text literals
  return (specification, environment.register specification)

/-- Takes a specification away, and tells whether there was one. -/
def unload (environment : Environment) (sort : String) : Bool × Environment :=
  (environment.theory.contains sort,
    { environment with theory := environment.theory.unregister sort })

/-- The text of a loaded specification. -/
def textOf (environment : Environment) (sort : String) : Except Error String := do
  let specification ← environment.theory.lookup sort
  return specification.text

/-- Sets the printer of a sort. -/
def addPrinter (environment : Environment) (sort : String) (printer : Printer) : Environment :=
  { environment with printers := environment.printers.insert sort printer }

/-- Takes the printer of a sort away, and tells whether there was one. -/
def removePrinter (environment : Environment) (sort : String) : Bool × Environment :=
  (environment.printers.contains sort,
    { environment with printers := environment.printers.erase sort })

/-- Adds a literal behind those there are. -/
def addLiteral (environment : Environment) (literal : Literal) : Environment :=
  { environment with literals := environment.literals ++ [literal] }

/-! ## Terms -/

/-- The text of a term, through the printers if the settings say so. -/
def render (environment : Environment) (omitted : Option String) (term : Term) : String :=
  if environment.settings.prettyPrint then term.renderWith omitted environment.printers
  else term.render omitted

/-- The term of a text. -/
def parse (environment : Environment) (text defaultSort : String) : Except Error Term :=
  Term.parse text defaultSort environment.literals

/-- Normalizes a term, starting under `specification`. -/
def normalizeUnder (environment : Environment) (fuel : Nat) (specification : Specification)
    (term : Term) : Except Stop Term :=
  (environment.theory.normalize fuel environment.settings.budget specification term).1

theorem normalizeUnder_eq (environment : Environment) (fuel : Nat) (specification : Specification)
    (term : Term) :
    environment.normalizeUnder fuel specification term =
      (environment.theory.normalize fuel environment.settings.budget specification term).1 :=
  rfl

/-- Normalizes a term, starting under the specification of its sort. -/
def normalize (environment : Environment) (fuel : Nat) (term : Term) : Except Stop Term :=
  match environment.theory.lookup term.sort with
  | .ok specification => environment.normalizeUnder fuel specification term
  | .error error => .error (.failed error)

end Environment

end Equational
