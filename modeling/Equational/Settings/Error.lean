import Equational.Text.Numeral

/-! # Settings that cannot be read

    Settings come from a text, from a file or from two environment variables.
    Only a variable tells what is wrong with it.
-/

namespace Equational

/-- The variable for the limit on rewriting. -/
def stepsVariable : String := "ADT_MAX_REWRITE_STEPS"

/-- The variable for the use of printers. -/
def printVariable : String := "ADT_PRETTY_PRINT"

/-- Why settings cannot be read. -/
inductive SettingsError where
  | malformedText
  | unreadableFile (path : String)
  | malformedFile (path : String)
  | malformedSteps (text : String) (cause : NumeralError)
  | malformedPrint (text : String)
deriving DecidableEq, Repr

namespace SettingsError

/-- The source that cannot be read. A variable is quoted as it was set. -/
def message : SettingsError → String
  | .malformedText => "Failed to parse engine configuration"
  | .unreadableFile path => "Failed to read " ++ path
  | .malformedFile path => "Failed to parse " ++ path
  | .malformedSteps text _ => "Invalid " ++ stepsVariable ++ ": '" ++ text ++ "'"
  | .malformedPrint text => "Invalid " ++ printVariable ++ ": '" ++ text ++ "'"

/-- What is wrong with a variable. -/
def cause? : SettingsError → Option String
  | .malformedSteps _ cause => some cause.message
  | .malformedPrint _ => some "provided string was not `true` or `false`"
  | _ => none

end SettingsError

end Equational
