/-! # Decimal numerals

    An unsigned numeral is a run of ASCII digits, at least one, behind an
    optional `+`. Its value has to stay below a bound. Characters are read from
    left to right, and the first that is no digit, or that takes the value to
    the bound, decides the error.
-/

namespace Equational

/-- Why a text is no numeral. -/
inductive NumeralError where
  | empty
  | invalidDigit
  | tooLarge
deriving DecidableEq, Repr

/-- The error as settings report it. -/
def NumeralError.message : NumeralError → String
  | .empty => "cannot parse integer from empty string"
  | .invalidDigit => "invalid digit found in string"
  | .tooLarge => "number too large to fit in target type"

namespace Numeral

/-- The value of an ASCII digit. -/
def digit? (c : Char) : Option Nat :=
  if '0' ≤ c ∧ c ≤ '9' then some (c.toNat - '0'.toNat) else none

/-- Reads digits behind those that make up `value` already. -/
def readDigits (bound value : Nat) : List Char → Except NumeralError Nat
  | [] => .ok value
  | c :: rest =>
    match digit? c with
    | none => .error .invalidDigit
    | some digit =>
      if 10 * value + digit < bound then readDigits bound (10 * value + digit) rest
      else .error .tooLarge

/-- The value of a numeral. A sign alone is an invalid digit. -/
def read (bound : Nat) : List Char → Except NumeralError Nat
  | [] => .error .empty
  -- without this case a sign alone would be the numeral of no digits
  | ['+'] => .error .invalidDigit
  | '+' :: rest => readDigits bound 0 rest
  | characters => readDigits bound 0 characters

end Numeral

end Equational
