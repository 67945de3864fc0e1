import Equational.Yaml.Cursor
import Equational.Yaml.Scalar
import Equational.Yaml.Token

/-! # Anchors, tags and directives

    A node may have an **anchor**, by which an alias refers to it, and a **tag**,
    which gives its type. A tag is written in full between `<` and `>`, or as a
    handle and a suffix. What a handle stands for is said by a **directive** at
    the start of the document.
-/

namespace Equational.Yaml

/-! ## Anchors and aliases -/

/-- Reads the name behind `&` or `*`. -/
def readName? (cursor : Cursor) : Option (String × Cursor) :=
  let name := cursor.takeWhile isNameCharacter
  let behind := cursor.dropWhile isNameCharacter
  let ends := endsWord behind.rest || behind.rest.head?.any
    ['?', ':', ',', ']', '\x7d', '%', '@', '\x60'].contains
  if !name.isEmpty && ends then some (String.ofList name, behind) else none

/-! ## Tags -/

/-- The characters of a tag. Between angle brackets some marks of collections
    may be among them. -/
def isTagCharacter (isVerbatim : Bool) (c : Char) : Bool :=
  isNameCharacter c || ";/?:@&=+$.!~*'()".toList.contains c ||
    (isVerbatim && ",[]".toList.contains c)

/-- The number of octets behind a first octet of a character in UTF-8. -/
def octetsBehind? (octet : Nat) : Option Nat :=
  if octet < 0x80 then some 0
  else if 0xc0 ≤ octet ∧ octet < 0xe0 then some 1
  else if 0xe0 ≤ octet ∧ octet < 0xf0 then some 2
  else if 0xf0 ≤ octet ∧ octet < 0xf8 then some 3
  else none

/-- Reads the characters of a tag. A `%` gives an octet by two hexadecimal digits;
    octets that `missing` tells are still to come. -/
def readTagText? (isVerbatim : Bool) (missing : Nat) (taken : List Char) :
    List Char → Place → Option (List Char × Cursor)
  | '%' :: a :: b :: rest, place => do
    let octet ← number? 16 [a, b]
    let missing ←
      match missing with
      | 0 => octetsBehind? octet
      | missing + 1 => if 0x80 ≤ octet ∧ octet < 0xc0 then some missing else none
    readTagText? isVerbatim missing (Char.ofNat octet :: taken) rest
      (((place.after '%').after a).after b)
  | c :: rest, place =>
    if missing ≠ 0 || c == '%' then none
    else if isTagCharacter isVerbatim c then
      readTagText? isVerbatim 0 (c :: taken) rest (place.after c)
    else some (taken.reverse, ⟨c :: rest, place⟩)
  | [], place => if missing = 0 then some (taken.reverse, ⟨[], place⟩) else none

/-- The characters before the first NUL, which ends a tag. -/
def beforeNul (text : List Char) : List Char :=
  text.takeWhile (· != '\x00')

/-- Reads the characters of a tag, at least one. -/
def readTagWord? (isVerbatim : Bool) (cursor : Cursor) : Option (List Char × Cursor) := do
  let (text, behind) ← readTagText? isVerbatim 0 [] cursor.rest cursor.place
  if text.isEmpty then none else some (beforeNul text, behind)

/-- Reads `!`, a name that may be empty, and another `!`, which may be missing. -/
def readHandle? (cursor : Cursor) : Option (List Char × Cursor) :=
  match cursor.rest with
  | '!' :: _ =>
    let name := (cursor.drop 1).takeWhile isNameCharacter
    let behind := (cursor.drop 1).dropWhile isNameCharacter
    if behind.rest.head? = some '!' then some ('!' :: name ++ ['!'], behind.drop 1)
    else some ('!' :: name, behind)
  | _ => none

/-- Whether a handle ends with a `!` of its own. -/
def isClosedHandle (handle : List Char) : Bool :=
  1 < handle.length && handle.getLast? == some '!'

/-- Reads a tag as a handle and a suffix. A tag written in full has the empty
    handle, and so has the tag `!`. -/
def readTagParts? (cursor : Cursor) : Option (List Char × List Char × Cursor) := do
  match cursor.rest with
  | '!' :: '<' :: _ =>
    let (text, behind) ← readTagWord? true (cursor.drop 2)
    if behind.rest.head? = some '>' then return ([], text, behind.drop 1) else none
  | _ =>
    let (handle, behind) ← readHandle? cursor
    if isClosedHandle handle then
      let (suffix, behind) ← readTagWord? false behind
      return (handle, suffix, behind)
    else
      let (text, behind) ← readTagText? false 0 [] behind.rest behind.place
      let suffix := beforeNul (handle.drop 1 ++ text)
      if suffix.isEmpty then return ([], ['!'], behind) else return (['!'], suffix, behind)

/-- Reads a tag, which has to end the word. -/
def readTag? (inFlow : Bool) (cursor : Cursor) : Option (Token × Cursor) := do
  let (handle, suffix, behind) ← readTagParts? cursor
  if endsWord behind.rest || (inFlow && behind.rest.head? == some ',') then
    return (.tag (String.ofList handle) (String.ofList suffix), behind)
  else none

/-! ## Directives -/

/-- Reads the number of a version, of nine digits at most. -/
def readVersionNumber? (cursor : Cursor) : Option (Nat × Cursor) := do
  let digits := cursor.takeWhile Char.isDigit
  guard (digits.length ≤ 9)
  let number ← number? 10 digits
  return (number, cursor.dropWhile Char.isDigit)

/-- Reads the version of a document. -/
def readVersion? (cursor : Cursor) : Option (Token × Cursor) := do
  let (major, behind) ← readVersionNumber? (cursor.dropWhile isBlank)
  guard (behind.rest.head? = some '.')
  let (minor, behind) ← readVersionNumber? (behind.drop 1)
  return (.version major minor, behind)

/-- Reads a handle and the text that it stands for. -/
def readTagHandle? (cursor : Cursor) : Option (Token × Cursor) := do
  let (handle, behind) ← readHandle? (cursor.dropWhile isBlank)
  guard (isClosedHandle handle || handle == ['!'])
  guard (behind.rest.head?.any isBlank)
  let (start, behind) ← readTagWord? true (behind.dropWhile isBlank)
  guard (endsWord behind.rest)
  return (.tagHandle (String.ofList handle) (String.ofList start), behind)

/-- Reads a directive behind `%` and the line it stands on. -/
def readDirective? (cursor : Cursor) : Option (Token × Cursor) := do
  let name := String.ofList (cursor.takeWhile isNameCharacter)
  let behind := cursor.dropWhile isNameCharacter
  guard (endsWord behind.rest)
  let (token, behind) ←
    if name = "YAML" then readVersion? behind
    else if name = "TAG" then readTagHandle? behind
    else none
  return (token, ← behind.endLine?)

end Equational.Yaml
