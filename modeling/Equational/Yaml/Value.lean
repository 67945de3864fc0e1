import Equational.Yaml.Node
import Equational.Yaml.Scalar

/-! # The values of nodes

    A plain scalar has the value that its text spells, whatever its tag. A
    literal scalar has one only if its tag says so, and no other node has one.
-/

namespace Equational.Yaml

/-- The tag of a basic type. -/
def basicTag (type : String) : String :=
  "tag:yaml.org,2002:" ++ type

namespace Node

/-- The text of a node that may stand for a value of a basic type. -/
def valueText? (type : String) : Node → Option String
  | .scalar _ .plain text => some text
  | .scalar label .literal text => if label.tag = some (basicTag type) then some text else none
  | _ => none

/-- The number below a bound that a node stands for. -/
def natural? (bound : Nat) (node : Node) : Option Nat :=
  (node.valueText? "int").bind (Yaml.natural? bound)

/-- The truth value that a node stands for. -/
def bool? (node : Node) : Option Bool :=
  (node.valueText? "bool").bind Yaml.bool?

/-- What `read?` makes of a node, unless it is a plain scalar that stands for
    nothing. The tag of nothing allows no other value. -/
def optional? {α : Type} (read? : Node → Option α) (node : Node) : Option (Option α) :=
  match node with
  | .scalar label .plain text =>
    match label.tag with
    | none => if text.isEmpty || isNull text then some none else (read? node).map some
    | some tag =>
      if tag = basicTag "null" then
        if isNull text then some none else none
      else (read? node).map some
  | node => (read? node).map some

end Node

end Equational.Yaml
