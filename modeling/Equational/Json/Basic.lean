/-! # JSON values

    A JSON value as data, apart from any text of it. An object lists its fields
    in order, and a field is looked up by its name. A number is kept as digits
    and a decimal exponent, so that `1.0` is told apart from `1`: only a number
    without a fraction is read as a natural number.
-/

namespace Equational

/-- A JSON value; the number is `mantissa * 10 ^ -exponent`. -/
inductive Json where
  | null
  | bool (value : Bool)
  | number (mantissa : Int) (exponent : Nat)
  | string (value : String)
  | array (items : List Json)
  | object (fields : List (String × Json))
deriving Repr, Inhabited

namespace Json

/-- A natural number. -/
def natural (value : Nat) : Json :=
  .number value 0

/-- The value, or `null`. -/
def optional {α : Type} (toJson : α → Json) : Option α → Json
  | some value => toJson value
  | none => .null

/-- The value of an object's field. -/
def field? (name : String) : Json → Option Json
  | .object fields => fields.lookup name
  | _ => none

/-- The text of a string. -/
def string? : Json → Option String
  | .string value => some value
  | _ => none

/-- A truth value. -/
def bool? : Json → Option Bool
  | .bool value => some value
  | _ => none

/-- A natural number below a bound. -/
def natural? (bound : Nat) : Json → Option Nat
  | .number (.ofNat value) 0 => if value < bound then some value else none
  | _ => none

/-- The items of an array. -/
def items? : Json → Option (List Json)
  | .array items => some items
  | _ => none

/-- What `read?` makes of each item of an array, if it accepts all of them. -/
def list? {α : Type} (read? : Json → Option α) (json : Json) : Option (List α) := do
  let items ← json.items?
  items.mapM read?

/-- What `read?` makes of a value other than `null`. -/
def optional? {α : Type} (read? : Json → Option α) : Json → Option (Option α)
  | .null => some none
  | json => (read? json).map some

end Json

end Equational
