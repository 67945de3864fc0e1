import Equational.Yaml.Token

/-! # Nodes

    A document is a tree. Its **nodes** are scalars, sequences and mappings, any
    of which may have an anchor and a tag, and aliases, which stand for the node
    of an anchor. A node that nothing is written for is an empty plain scalar.
-/

namespace Equational.Yaml

/-- What a node is labelled with. -/
structure Label where
  anchor : Option String
  tag : Option String
deriving DecidableEq, Repr

/-- No anchor and no tag. -/
def Label.none : Label :=
  ⟨.none, .none⟩

/-- A part of a document. -/
inductive Node where
  | scalar (label : Label) (style : Style) (text : String)
  | sequence (label : Label) (items : List Node)
  | mapping (label : Label) (entries : List (Node × Node))
  | alias (name : String)
deriving Repr

namespace Node

/-- A node that nothing but a label is written for. -/
def empty (label : Label) : Node :=
  .scalar label .plain ""

/-- The text of a scalar. -/
def text? : Node → Option String
  | .scalar _ _ text => some text
  | _ => none

/-! ## Aliases -/

/-- The names of the anchors before some place of a document, each with the number
    of its last anchor. -/
abbrev Anchors := List (String × Nat)

/-- The names with an anchor more. Its number is how many names there were, so the
    anchors of different names are told apart unless a name is used again: its new
    number is also the next that another name gets. -/
def Anchors.add (known : Anchors) (name : String) : Anchors :=
  (name, known.length) :: known.filter (·.1 != name)

/-- The names with the anchor of a label, if it has one. -/
def Anchors.addLabel (known : Anchors) (label : Label) : Anchors :=
  match label.anchor with
  | some name => known.add name
  | none => known

/-- The node under the name of a label, if the label has an anchor. -/
def underAnchor (label : Label) (node : Node) : List (String × Node) :=
  label.anchor.toList.map fun name => (name, node)

mutual
/-- The nodes that have anchors, in the order in which they start. -/
def anchored : Node → List (String × Node)
  | .scalar label style text => underAnchor label (.scalar label style text)
  | .sequence label items => underAnchor label (.sequence label items) ++ anchoredItems items
  | .mapping label entries => underAnchor label (.mapping label entries) ++ anchoredEntries entries
  | .alias _ => []
/-- The companion of `anchored` on items. -/
def anchoredItems : List Node → List (String × Node)
  | [] => []
  | item :: items => anchored item ++ anchoredItems items
/-- The companion of `anchored` on entries. -/
def anchoredEntries : List (Node × Node) → List (String × Node)
  | [] => []
  | (key, value) :: entries => anchored key ++ anchored value ++ anchoredEntries entries
end

/-- The nodes of anchors by their numbers, the last one first. -/
def numbered (known : Anchors) (nodes : List (Nat × Node)) :
    List (String × Node) → List (Nat × Node)
  | [] => nodes
  | (name, node) :: rest => numbered (known.add name) ((known.length, node) :: nodes) rest

mutual
/-- Replaces each alias by the last of the `nodes` that has the number of its name
    there, and gives the names known behind the node. An alias for a name that is
    not known has no meaning. The node of an anchor is taken as it is written. -/
def expand? (nodes : List (Nat × Node)) (known : Anchors) : Node → Option (Node × Anchors)
  | .scalar label style text => some (.scalar label style text, known.addLabel label)
  | .sequence label items => do
    let (items, known) ← expandItems? nodes (known.addLabel label) items
    return (.sequence label items, known)
  | .mapping label entries => do
    let (entries, known) ← expandEntries? nodes (known.addLabel label) entries
    return (.mapping label entries, known)
  | .alias name => do
    let number ← known.lookup name
    let node ← nodes.lookup number
    return (node, known)
/-- The companion of `expand?` on items. -/
def expandItems? (nodes : List (Nat × Node)) (known : Anchors) :
    List Node → Option (List Node × Anchors)
  | [] => some ([], known)
  | item :: items => do
    let (item, known) ← expand? nodes known item
    let (items, known) ← expandItems? nodes known items
    return (item :: items, known)
/-- The companion of `expand?` on entries. -/
def expandEntries? (nodes : List (Nat × Node)) (known : Anchors) :
    List (Node × Node) → Option (List (Node × Node) × Anchors)
  | [] => some ([], known)
  | (key, value) :: entries => do
    let (key, known) ← expand? nodes known key
    let (value, known) ← expand? nodes known value
    let (entries, known) ← expandEntries? nodes known entries
    return ((key, value) :: entries, known)
end

/-- The node with its aliases replaced, if all of them have a meaning. -/
def withoutAliases? (node : Node) : Option Node :=
  (node.expand? (numbered [] [] node.anchored) []).map Prod.fst

end Node

end Equational.Yaml
