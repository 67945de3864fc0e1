import Equational.Settings.Basic
import Equational.Settings.Error
import Equational.Text.Blank

/-! # Settings from environment variables

    A variable that is set has to hold a numeral below 2^64, or one of the words
    `true` and `false`, between white space. The limit is read first. Messages
    quote the text of a variable as it is, white space included.
-/

namespace Equational

namespace Settings

/-- Reads the limit, if its variable is set. -/
def withSteps (settings : Settings) : Option String → Except SettingsError Settings
  | none => .ok settings
  | some text =>
    match Numeral.read 0x1_0000_0000_0000_0000 (trimWhiteSpace text.toList) with
    | .ok limit => .ok { settings with maxRewriteSteps := some limit }
    | .error cause => .error (.malformedSteps text cause)

/-- Reads the use of printers, if its variable is set. -/
def withPrint (settings : Settings) : Option String → Except SettingsError Settings
  | none => .ok settings
  | some text =>
    let word := String.ofList (trimWhiteSpace text.toList)
    if word = "true" then .ok { settings with prettyPrint := true }
    else if word = "false" then .ok { settings with prettyPrint := false }
    else .error (.malformedPrint text)

/-- The settings of the two variables, either of which may be unset. -/
def ofVariables (steps print : Option String) : Except SettingsError Settings := do
  let settings ← standard.withSteps steps
  settings.withPrint print

end Settings

end Equational
