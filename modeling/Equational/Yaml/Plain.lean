import Equational.Yaml.Folding

/-! # Plain scalars

    A plain scalar is written without quotes. It ends at a comment, at a colon
    that ends a word, and, between brackets, at a mark of collections. Outside
    of brackets its lines are indented deeper than the collection around it.
-/

namespace Equational.Yaml

/-- The marks of collections between brackets. -/
def isFlowMark (c : Char) : Bool :=
  [',', '[', ']', '\x7b', '\x7d'].contains c

/-- Whether a plain scalar starts here. -/
def startsPlain (inFlow : Bool) : List Char → Bool
  | [] => false
  | c :: rest =>
    if c == '-' then !rest.head?.any isBlank
    else if c == '?' || c == ':' then !inFlow && !endsWord rest
    else
      !(isGap c || isFlowMark c ||
        ['#', '&', '*', '!', '|', '>', '\'', '"', '%', '@', '\x60'].contains c)

/-- A plain scalar, whether a line break follows it, and the cursor behind that. -/
structure PlainScalar where
  text : String
  endsLine : Bool
  behind : Cursor

/-- The scalar of the characters `taken`, in reverse order, and of a gap behind it
    that does not belong to it. -/
def PlainScalar.ofTaken (taken : List Char) (gap : Gap) (behind : Cursor) : PlainScalar :=
  ⟨String.ofList taken.reverse, gap.hasBreak, behind⟩

/-- Reads a plain scalar behind the characters `taken` in reverse order and a
    gap. Its lines stand at the column `indent` at least. -/
def readPlain? (inFlow : Bool) (indent : Nat) (taken : List Char) (gap : Gap) :
    List Char → Place → Option PlainScalar
  | [], place => some (.ofTaken taken gap ⟨[], place⟩)
  | c :: rest, place =>
    if isGap c then
      -- a tab does not indent a line
      if c == '\t' && gap.hasBreak && place.column < indent then none
      else readPlain? inFlow indent taken (gap.add c) rest (place.after c)
    else if gap != Gap.none && ((!inFlow && place.column < indent) || c == '#' ||
        (place.column == 0 && startsDocumentMark (c :: rest))) then
      some (.ofTaken taken gap ⟨c :: rest, place⟩)
    else if c == ':' && inFlow && rest.head?.any (fun next => next == '?' || isFlowMark next) then
      none
    else if (c == ':' && endsWord rest) || (inFlow && isFlowMark c) then
      some (.ofTaken taken gap ⟨c :: rest, place⟩)
    else readPlain? inFlow indent (c :: gap.join taken) Gap.none rest (place.after c)

end Equational.Yaml
