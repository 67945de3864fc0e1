import Equational.Error
import Equational.Text.Region

/-! # Diagnostics

    A diagnostic is an error as an editor shows it: a code that stays the same
    whatever the wording, the message, and the region of the text, for an error
    that stands in one.
-/

namespace Equational

/-- The kinds of errors that diagnostics tell apart. -/
inductive DiagnosticCode where
  | malformedQualifier
  | unexpectedToken
  | unexpectedEof
  | emptyInput
  | unknownSort
  | duplicateOperation
  | variablePattern
  | unknownOperation
  | arityMismatch
  | argumentSortMismatch
  | sortNotFound
  | unboundVariable
  | stepLimitExceeded
deriving DecidableEq, Repr

namespace DiagnosticCode

/-- Every code once. -/
def all : List DiagnosticCode :=
  [.malformedQualifier, .unexpectedToken, .unexpectedEof, .emptyInput, .unknownSort,
    .duplicateOperation, .variablePattern, .unknownOperation, .arityMismatch,
    .argumentSortMismatch, .sortNotFound, .unboundVariable, .stepLimitExceeded]

/-- The code as it is written. -/
def text : DiagnosticCode → String
  | .malformedQualifier => "MalformedQualifier"
  | .unexpectedToken => "UnexpectedToken"
  | .unexpectedEof => "UnexpectedEof"
  | .emptyInput => "EmptyInput"
  | .unknownSort => "UnknownSort"
  | .duplicateOperation => "DuplicateOperation"
  | .variablePattern => "VariablePattern"
  | .unknownOperation => "UnknownOperation"
  | .arityMismatch => "ArityMismatch"
  | .argumentSortMismatch => "ArgumentSortMismatch"
  | .sortNotFound => "SortNotFound"
  | .unboundVariable => "UnboundVariable"
  | .stepLimitExceeded => "StepLimitExceeded"

/-- The code of a text. -/
def ofText? (text : String) : Option DiagnosticCode :=
  all.find? fun code => code.text == text

theorem ofText?_text (code : DiagnosticCode) : ofText? code.text = some code := by
  cases code <;> decide

/-- The code of an error. -/
def ofError : Error → DiagnosticCode
  | .lexical _ => .malformedQualifier
  | .grammar (.unexpected _ _) => .unexpectedToken
  | .grammar (.endOfInput _) => .unexpectedEof
  | .grammar .noStatements => .emptyInput
  | .signature (.unknownArgumentSort _ _) => .unknownSort
  | .signature (.unknownResultSort _ _) => .unknownSort
  | .signature (.undeclaredSort _ _ _) => .unknownSort
  | .signature (.duplicateOperation _) => .duplicateOperation
  | .signature (.variablePattern _ _) => .variablePattern
  | .signature (.unknownOperation _ _) => .unknownOperation
  | .signature (.arityMismatch _ _ _) => .arityMismatch
  | .call (.unknownOperation _ _) => .unknownOperation
  | .call (.arityMismatch _ _ _) => .arityMismatch
  | .call (.argumentSortMismatch _ _ _ _) => .argumentSortMismatch
  | .undefinedSort _ => .sortNotFound
  | .rewrite (.unboundVariable _ _) => .unboundVariable
  | .rewrite (.stepLimitExceeded _ _) => .stepLimitExceeded

end DiagnosticCode

/-- An error as an editor shows it. -/
structure Diagnostic where
  code : DiagnosticCode
  message : String
  region : Option Region
deriving DecidableEq, Repr

namespace Diagnostic

/-- The diagnostic of an error. Its region is known when the text that was read
    is. -/
def ofError (error : Error) (source : Option String) : Diagnostic where
  code := .ofError error
  message := error.message
  region :=
    match error.span?, source with
    | some span, some text => some (.locate text span)
    | _, _ => none

/-- The diagnostic on one line, with the place where its region starts. -/
def text (diagnostic : Diagnostic) : String :=
  "error[" ++ diagnostic.code.text ++ "]" ++
    (match diagnostic.region with
      | some region =>
        let start := region.start.wrapped
        " " ++ toString start.line ++ ":" ++ toString start.column
      | none => "") ++
    ": " ++ diagnostic.message

end Diagnostic

end Equational
