/-! # The texts of values

    A text stands for nothing, a truth value or a number when it is spelled like
    one. A number may carry a `+`, and a base by `0x`, `0o` or `0b`. A decimal
    number has no leading zero.
-/

namespace Equational.Yaml

/-- Whether a text stands for nothing. -/
def isNull (text : String) : Bool :=
  ["~", "null", "Null", "NULL"].contains text

/-- The truth value that a text spells. -/
def bool? (text : String) : Option Bool :=
  if ["true", "True", "TRUE"].contains text then some true
  else if ["false", "False", "FALSE"].contains text then some false
  else none

/-- The value of a digit, in bases up to sixteen. -/
def digit? (c : Char) : Option Nat :=
  if '0' ≤ c ∧ c ≤ '9' then some (c.toNat - '0'.toNat)
  else if 'a' ≤ c ∧ c ≤ 'f' then some (c.toNat - 'a'.toNat + 10)
  else if 'A' ≤ c ∧ c ≤ 'F' then some (c.toNat - 'A'.toNat + 10)
  else none

/-- Reads digits behind those that make up `value` already. -/
def digits? (base value : Nat) : List Char → Option Nat
  | [] => some value
  | c :: rest =>
    match digit? c with
    | some digit => if digit < base then digits? base (base * value + digit) rest else none
    | none => none

/-- The number that digits make up, at least one of them. -/
def number? (base : Nat) : List Char → Option Nat
  | [] => none
  | digits => digits? base 0 digits

/-- The number of characters behind a sign. -/
def unsigned? : List Char → Option Nat
  | '0' :: 'x' :: digits => number? 16 digits
  | '0' :: 'o' :: digits => number? 8 digits
  | '0' :: 'b' :: digits => number? 2 digits
  | ['0'] => some 0
  | '0' :: _ => none
  | digits => number? 10 digits

/-- The number below a bound that a text spells. -/
def natural? (bound : Nat) (text : String) : Option Nat :=
  let value? :=
    match text.toList with
    | '+' :: rest => unsigned? rest
    | characters => unsigned? characters
  value?.filter fun value => decide (value < bound)

end Equational.Yaml
