import Equational.Token.Basic

/-! # Errors

    Each phase has its own causes: scanning words, reading the grammar,
    checking a signature, calling an operation, looking a sort up, and
    rewriting. `Error` joins them. A cause holds what went wrong as data; the
    wording is in the `message` functions alone, and `Error.span` tells where
    in the text an error stands, for the causes that stand in one.
-/

namespace Equational

/-! ## Causes -/

/-- A word whose colons make no sense. -/
inductive LexicalError where
  | tooManyQualifiers (word : String) (span : Span)
  | emptyQualifier (word : String) (span : Span)
deriving DecidableEq, Repr

/-- The section headings of a specification. -/
inductive Heading where
  | type
  | sorts
  | operations
  | axioms
deriving DecidableEq, Repr

/-- The keyword of a heading. -/
def Heading.word : Heading → String
  | .type => "type:"
  | .sorts => "sorts:"
  | .operations => "operations:"
  | .axioms => "axioms:"

/-- What the grammar asks for at some place. -/
inductive Expected where
  | heading (heading : Heading)
  | symbol (symbol : Symbol)
  | sortName
  | sort
  | operationName
  | resultSort
  | identifier
  | endOfInput
deriving DecidableEq, Repr

/-- A token, or the end of the text, at which the grammar does not go on. -/
inductive GrammarError where
  | unexpected (expected : Expected) (found : Token)
  | endOfInput (expected : Expected)
  | noStatements
deriving DecidableEq, Repr

/-- A signature, or a term under a signature, that is not well formed. -/
inductive SignatureError where
  | unknownArgumentSort (operation sort : String)
  | unknownResultSort (operation sort : String)
  | undeclaredSort (sort name : String) (span : Option Span)
  | duplicateOperation (operation : String)
  | variablePattern (name sort : String)
  | unknownOperation (sort operation : String)
  | arityMismatch (operation : String) (expected found : Nat)
deriving DecidableEq, Repr

/-- A call that its operation's signature does not allow. -/
inductive CallError where
  | unknownOperation (sort operation : String)
  | arityMismatch (operation : String) (expected found : Nat)
  | argumentSortMismatch (operation : String) (position : Nat) (expected found : String)
deriving DecidableEq, Repr

/-- A rule application, or a run of them, that has no result. -/
inductive RewriteError where
  | unboundVariable (name sort : String)
  | stepLimitExceeded (sort : String) (limit : Nat)
deriving DecidableEq, Repr

/-- Any of the above, or a sort that has no specification. -/
inductive Error where
  | lexical (error : LexicalError)
  | grammar (error : GrammarError)
  | signature (error : SignatureError)
  | call (error : CallError)
  | undefinedSort (sort : String)
  | rewrite (error : RewriteError)
deriving DecidableEq, Repr

/-! ## Wording -/

/-- A text between single quotes. -/
def quoted (text : String) : String :=
  "'" ++ text ++ "'"

/-- The word at fault, and where it stands. -/
def LexicalError.message : LexicalError → String
  | .tooManyQualifiers word span =>
    "Too many type qualifiers in identifier " ++ quoted word ++ " at " ++ span.text
  | .emptyQualifier word span =>
    "Empty sort or name in qualified identifier " ++ quoted word ++ " at " ++ span.text

/-- Words and symbols are quoted, roles are not. -/
def Expected.describe : Expected → String
  | .heading title => quoted title.word
  | .symbol mark => quoted mark.text
  | .sortName => "sort name"
  | .sort => "sort"
  | .operationName => "operation name"
  | .resultSort => "result sort"
  | .identifier => "identifier"
  | .endOfInput => "end of input"

/-- What was asked for, and what stood there instead. -/
def GrammarError.message : GrammarError → String
  | .unexpected expected found =>
    "Expected " ++ expected.describe ++ ", got " ++ quoted found.text ++ " at " ++ found.span.text
  | .endOfInput expected => "Expected " ++ expected.describe ++ ", but reached end of input"
  | .noStatements => "No statements to evaluate"

/-- The operation, the sort or the pattern at fault. -/
def SignatureError.message : SignatureError → String
  | .unknownArgumentSort operation sort =>
    "Error in operation " ++ quoted operation ++ ": argument sort " ++ quoted sort ++ " is unknown"
  | .unknownResultSort operation sort =>
    "Error in operation " ++ quoted operation ++ ": result sort " ++ quoted sort ++ " is unknown"
  | .undeclaredSort sort name _ =>
    "Sort of identifier " ++ quoted (sort ++ ":" ++ name) ++ " is not declared in sorts"
  | .duplicateOperation operation =>
    "Operation " ++ quoted operation ++ " is already defined"
  | .variablePattern name sort =>
    "Axiom pattern " ++ quoted (sort ++ ":" ++ name) ++ " has no operation head"
  | .unknownOperation sort operation =>
    "Unknown operation " ++ quoted operation ++ " in axiom of sort " ++ quoted sort
  | .arityMismatch operation expected found =>
    "Wrong number of arguments in axiom for operation " ++ quoted operation ++
      ", expected " ++ toString expected ++ " got " ++ toString found

/-- The operation that was called. Arguments are counted from 0. -/
def CallError.message : CallError → String
  | .unknownOperation sort operation =>
    "Operation " ++ quoted operation ++ " not supported by sort " ++ quoted sort
  | .arityMismatch operation expected found =>
    "Wrong number of arguments (" ++ toString found ++ " vs. " ++ toString expected ++
      ") in call to " ++ quoted operation
  | .argumentSortMismatch operation position expected found =>
    "Incompatible sort of argument " ++ toString position ++ " in call to " ++ quoted operation ++
      ", expected " ++ quoted expected ++ " got " ++ quoted found

/-- The variable without a term, or the limit that was reached. -/
def RewriteError.message : RewriteError → String
  | .unboundVariable name sort =>
    "Variable " ++ quoted name ++ " of sort " ++ quoted sort ++ " is not bound"
  | .stepLimitExceeded sort limit =>
    "Rewrite step limit of " ++ toString limit ++ " exceeded while normalizing sort " ++ quoted sort

/-- The cause's message behind the name of its phase. -/
def Error.message : Error → String
  | .lexical error => "Lexical error: " ++ error.message
  | .grammar error => "Parse error: " ++ error.message
  | .signature error => "Signature error: " ++ error.message
  | .call error => "Dispatch error: " ++ error.message
  | .undefinedSort sort => "Registry error: Undefined sort " ++ quoted sort
  | .rewrite error => "Rewrite error: " ++ error.message

/-! ## Places -/

/-- A malformed word always stands in a text. -/
def LexicalError.span : LexicalError → Span
  | .tooManyQualifiers _ span => span
  | .emptyQualifier _ span => span

/-- The span of the token at fault; the end of a text has none. -/
def GrammarError.span? : GrammarError → Option Span
  | .unexpected _ found => some found.span
  | .endOfInput _ => none
  | .noStatements => none

/-- Only a sort that was read from a text has a span. -/
def SignatureError.span? : SignatureError → Option Span
  | .undeclaredSort _ _ span => span
  | _ => none

/-- Where the error stands in the text that was read. -/
def Error.span? : Error → Option Span
  | .lexical error => some error.span
  | .grammar error => error.span?
  | .signature error => error.span?
  | _ => none

end Equational
