import Equational.Yaml.Cursor
import Equational.Yaml.Scalar
import Equational.Yaml.Token

/-! # Block scalars

    A block scalar is written in lines of its own below its mark. All of them
    are indented to one column, which the mark gives, or else the first line
    that holds something. A literal scalar keeps its line breaks. A folded one
    turns a single break between two lines into a space, unless one of the lines
    starts with a blank. What becomes of the breaks at the end is said by the
    mark.
-/

namespace Equational.Yaml

/-- What becomes of the breaks at the end: all go, the first stays, or all stay. -/
inductive Chomping where
  | strip
  | clip
  | keep
deriving DecidableEq, Repr

/-- The sign for the breaks at the end, if it is there. -/
def readChomping (cursor : Cursor) : Option Chomping × Cursor :=
  match cursor.rest with
  | '-' :: _ => (some .strip, cursor.drop 1)
  | '+' :: _ => (some .keep, cursor.drop 1)
  | _ => (none, cursor)

/-- The digit for the indentation, or 0 if there is none. The digit 0 itself is
    refused. -/
def readIncrement? (cursor : Cursor) : Option (Nat × Cursor) :=
  match cursor.rest with
  | '0' :: _ => none
  | c :: _ =>
    match digits? 10 0 [c] with
    | some increment => some (increment, cursor.drop 1)
    | none => some (0, cursor)
  | [] => some (0, cursor)

/-- The sign and the digit, which may stand in either order. -/
def readBlockHeader? (cursor : Cursor) : Option (Chomping × Nat × Cursor) := do
  match readChomping cursor with
  | (some chomping, behind) =>
    let (increment, behind) ← readIncrement? behind
    return (chomping, increment, behind)
  | (none, behind) =>
    let (increment, behind) ← readIncrement? behind
    if increment = 0 then return (.clip, 0, behind)
    else
      let (chomping, behind) := readChomping behind
      return (chomping.getD .clip, increment, behind)

/-- The line breaks, in reverse order, up to a line that holds something, and the
    cursor in that line behind its indentation. -/
structure Indented where
  breaks : List Char
  deepest : Nat
  behind : Cursor

/-- Steps over empty lines and over the indentation of the next. The indentation
    ends at the column `indent`, or at any character but a space if that is 0;
    a tab is no part of it. The deepest column reached is kept. -/
def skipIndentation? (indent deepest : Nat) (breaks : List Char) :
    List Char → Place → Option Indented
  | [], place => some ⟨breaks, max deepest place.column, ⟨[], place⟩⟩
  | c :: rest, place =>
    let inside := indent == 0 || place.column < indent
    let deepest := max deepest place.column
    if inside && c == ' ' then skipIndentation? indent deepest breaks rest (place.after c)
    else if inside && c == '\t' then none
    else if isBreak c then skipIndentation? indent deepest (c :: breaks) rest (place.after c)
    else some ⟨breaks, deepest, ⟨c :: rest, place⟩⟩

/-- The lines read so far, in reverse order of their characters: their text, the
    break at the end of the last, the breaks of the empty lines behind that, and
    whether the last line starts with a blank. -/
structure BlockLines where
  taken : List Char
  lead : List Char
  breaks : List Char
  startsBlank : Bool

/-- The lines with those breaks at the end that are to stay. -/
def BlockLines.text (lines : BlockLines) (chomping : Chomping) : String :=
  String.ofList <| List.reverse <|
    match chomping with
    | .strip => lines.taken
    | .clip => lines.lead ++ lines.taken
    | .keep => lines.breaks ++ (lines.lead ++ lines.taken)

/-- The text before the next line, which starts with a blank or not. -/
def BlockLines.join (lines : BlockLines) (isLiteral startsBlank : Bool) : List Char :=
  if !isLiteral && lines.lead == ['\n'] && !lines.startsBlank && !startsBlank then
    -- a single break is a space, and of several the first is left out
    if lines.breaks.isEmpty then ' ' :: lines.taken else lines.breaks ++ lines.taken
  else lines.breaks ++ (lines.lead ++ lines.taken)

/-- Reads the lines that stand at the column `indent`. -/
def readBlockLines? (isLiteral : Bool) (indent : Nat) (lines : BlockLines) (cursor : Cursor) :
    Option (BlockLines × Cursor) :=
  match cursor.rest with
  | [] => some (lines, cursor)
  | c :: _ =>
    if cursor.place.column ≠ indent then some (lines, cursor)
    else
      let line := cursor.takeWhile (!isBreak ·)
      let atBreak := cursor.dropWhile (!isBreak ·)
      let lead := atBreak.rest.take 1
      let next := atBreak.drop 1
      match skipIndentation? indent 0 [] next.rest next.place with
      | none => none
      | some indented =>
        if indented.behind.rest.length < cursor.rest.length then
          readBlockLines? isLiteral indent
            ⟨line.reverse ++ lines.join isLiteral (isBlank c), lead, indented.breaks, isBlank c⟩
            indented.behind
        else none
termination_by cursor.rest.length

/-- Reads a block scalar behind its mark. Its column is `least` at least. -/
def readBlock? (isLiteral : Bool) (least : Nat) (cursor : Cursor) : Option (Token × Cursor) := do
  let (chomping, increment, behind) ← readBlockHeader? cursor
  let start ← behind.endLine?
  -- a digit counts from the column of the collection around the scalar
  let given := if increment = 0 then 0 else least - 1 + increment
  let indented ← skipIndentation? given 0 [] start.rest start.place
  let indent := if given = 0 then max (max indented.deepest least) 1 else given
  let (lines, behind) ← readBlockLines? isLiteral indent ⟨[], [], indented.breaks, false⟩
    indented.behind
  return (.scalar (if isLiteral then .literal else .folded) (lines.text chomping), behind)

end Equational.Yaml
