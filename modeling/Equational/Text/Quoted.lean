import Equational.Text.Hidden

/-! # Quoted text

    A text between double quotes, in which quotes, backslashes and the usual
    control characters are escaped by a backslash, and other hidden characters
    are given by their code point in hexadecimal.
-/

namespace Equational

/-- The digits of a number in hexadecimal. -/
def hexadecimal (value : Nat) : String :=
  String.ofList (Nat.toDigits 16 value)

/-- A character as it stands between double quotes. -/
def quoteCharacter (c : Char) : String :=
  if c == '"' then "\\\""
  else if c == '\\' then "\\\\"
  else if c == '\t' then "\\t"
  else if c == '\r' then "\\r"
  else if c == '\n' then "\\n"
  else if c == '\x00' then "\\0"
  else if isHidden c then "\\u\x7b" ++ hexadecimal c.toNat ++ "\x7d"
  else String.ofList [c]

/-- A text between double quotes. -/
def doubleQuoted (text : String) : String :=
  "\"" ++ String.join (text.toList.map quoteCharacter) ++ "\""

end Equational
