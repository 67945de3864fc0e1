import Equational.Settings.Basic
import Equational.Settings.Error
import Equational.Yaml.Document
import Equational.Yaml.Value

/-! # Settings from a document

    A document is a mapping that sets the limit and the use of printers by two
    entries, either of which may be missing. Entries of other names are ignored.
    An entry of one of the two names must be the only one. Its value is a number
    below 2^64 or nothing for the limit, and a truth value for the printers.
-/

namespace Equational

namespace Settings

/-- The limit that a node sets. -/
def limit? (node : Yaml.Node) : Option (Option Nat) :=
  node.optional? (Yaml.Node.natural? 0x1_0000_0000_0000_0000)

/-- What the nodes for one name set. Without a node it is the standard; a name that
    is given twice has no value. -/
def ofSingle? {α : Type} (standard : α) (read? : Yaml.Node → Option α) :
    List Yaml.Node → Option α
  | [] => some standard
  | [node] => read? node
  | _ => none

/-- The settings of the nodes for the limit and for the printers, each of which
    may be missing. -/
def ofNodes? (limits prints : List Yaml.Node) : Option Settings := do
  let limit ← ofSingle? standard.maxRewriteSteps limit? limits
  let pretty ← ofSingle? standard.prettyPrint Yaml.Node.bool? prints
  return ⟨limit, pretty⟩

/-- The values of all entries of a name. -/
def valuesOf (name : String) (entries : List (String × Yaml.Node)) : List Yaml.Node :=
  (entries.filter fun entry => entry.1 == name).map Prod.snd

/-- The settings of a node. A node that nothing is written for sets nothing; an
    empty text between quotes has no settings. -/
def ofNode? : Yaml.Node → Option Settings
  | .mapping _ entries => do
    let named ← entries.mapM fun entry => entry.1.text?.map fun name => (name, entry.2)
    ofNodes? (valuesOf "max_rewrite_steps" named) (valuesOf "pretty_print" named)
  | .scalar _ .plain text => if text.isEmpty then some standard else none
  | .scalar _ _ _ | .sequence _ _ | .alias _ => none

/-- The settings of a document. One that holds nothing sets nothing. -/
def ofDocument? (text : String) : Option Settings :=
  match Yaml.Node.ofText? text with
  | none => none
  | some none => some standard
  | some (some node) => ofNode? node

/-- The settings of a text. -/
def ofText (text : String) : Except SettingsError Settings :=
  match ofDocument? text with
  | some settings => .ok settings
  | none => .error .malformedText

/-- The settings of a file, given what it holds if it is there. -/
def ofFile (path : String) (content : Option ByteArray) : Except SettingsError Settings :=
  match content.bind String.fromUTF8? with
  | none => .error (.unreadableFile path)
  | some text =>
    match ofDocument? text with
    | some settings => .ok settings
    | none => .error (.malformedFile path)

end Settings

end Equational
