/-! # Places in a document

    A document is read character by character. A **cursor** holds the characters
    that are left and the place they start at, since the indentation of a line
    tells which collection it belongs to, and since a key has to end near where
    it starts.

    A line ends at a line feed or at one of the two Unicode separators; all other
    line breaks are written as line feeds before the reading starts. A byte order
    mark may start any line. It counts as a character of the line, so what
    follows it stands in the second column.
-/

namespace Equational.Yaml

/-! ## Characters -/

/-- Whether a document may hold a character. -/
def isAllowed (c : Char) : Bool :=
  c == '\t' || c == '\n' || c == '\r' || (' ' ≤ c && c ≤ '~') || c.toNat == 0x85 ||
    (0xa0 ≤ c.toNat && c.toNat ≤ 0xfffd) || 0x10000 ≤ c.toNat

/-- The characters with every line break of one or two control characters written
    as a line feed. -/
def unifyBreaks : List Char → List Char
  | '\r' :: '\n' :: rest => '\n' :: unifyBreaks rest
  | c :: rest => (if c == '\r' || c.toNat == 0x85 then '\n' else c) :: unifyBreaks rest
  | [] => []

/-- Blanks separate words within a line. -/
def isBlank (c : Char) : Bool :=
  c == ' ' || c == '\t'

/-- Whether a character ends a line. -/
def isBreak (c : Char) : Bool :=
  c == '\n' || c.toNat == 0x2028 || c.toNat == 0x2029

/-- Whether a character separates words. -/
def isGap (c : Char) : Bool :=
  isBlank c || isBreak c

/-- Whether a character is a byte order mark. -/
def isByteOrderMark (c : Char) : Bool :=
  c.toNat == 0xfeff

/-- The characters of names: ASCII letters and digits, `_` and `-`. -/
def isNameCharacter (c : Char) : Bool :=
  c.isAlphanum || c == '_' || c == '-'

/-- Whether the next character, if there is one, separates words. -/
def endsWord : List Char → Bool
  | [] => true
  | c :: _ => isGap c

/-- Whether the characters start with a mark, `---` or `...`, that stands alone. -/
def startsMark (mark : Char) : List Char → Bool
  | a :: b :: c :: rest => a == mark && b == mark && c == mark && endsWord rest
  | _ => false

/-- Whether the characters start with the mark of a document's start or end. -/
def startsDocumentMark (characters : List Char) : Bool :=
  startsMark '-' characters || startsMark '.' characters

/-! ## Places -/

/-- The number of characters before a place, of lines before it, and of
    characters before it on its line. -/
structure Place where
  index : Nat
  line : Nat
  column : Nat
deriving DecidableEq, Repr

namespace Place

/-- The place before the first character. -/
def start : Place :=
  ⟨0, 0, 0⟩

/-- The place behind a character. -/
def after (place : Place) (c : Char) : Place :=
  if isBreak c then ⟨place.index + 1, place.line + 1, 0⟩
  else ⟨place.index + 1, place.line, place.column + 1⟩

end Place

/-! ## Cursors -/

/-- The characters still to be read, and the place of the first of them. -/
structure Cursor where
  rest : List Char
  place : Place
deriving Repr

namespace Cursor

/-- The cursor `count` characters further on. -/
def drop (cursor : Cursor) (count : Nat) : Cursor :=
  ⟨cursor.rest.drop count, (cursor.rest.take count).foldl Place.after cursor.place⟩

/-- The characters up to the first that fails the test. -/
def takeWhile (cursor : Cursor) (test : Char → Bool) : List Char :=
  cursor.rest.takeWhile test

/-- The cursor at the first character that fails the test. -/
def dropWhile (cursor : Cursor) (test : Char → Bool) : Cursor :=
  ⟨cursor.rest.dropWhile test, (cursor.takeWhile test).foldl Place.after cursor.place⟩

/-- Steps over the rest of a line that may hold a comment, and over its break. -/
def endLine? (cursor : Cursor) : Option Cursor :=
  let behind := cursor.dropWhile isBlank
  let behind :=
    if behind.rest.head? = some '#' then behind.dropWhile (!isBreak ·) else behind
  match behind.rest with
  | [] => some behind
  | c :: _ => if isBreak c then some (behind.drop 1) else none

/-- Steps over blanks, line breaks and comments, and over the byte order marks that
    start lines. Where a key `mayStart`, tabs do not count as blanks. Tells whether
    a key may start at the end, which a line break allows unless the cursor is
    between brackets. -/
def skipSpace (inFlow : Bool) (mayStart inComment : Bool) : List Char → Place → Bool × Cursor
  | [], place => (mayStart, ⟨[], place⟩)
  | c :: rest, place =>
    if isBreak c then skipSpace inFlow (mayStart || !inFlow) false rest (place.after c)
    else if inComment || c == ' ' || (c == '\t' && (inFlow || !mayStart)) ||
        (isByteOrderMark c && place.column == 0) then
      skipSpace inFlow mayStart inComment rest (place.after c)
    else if c == '#' then skipSpace inFlow mayStart true rest (place.after c)
    else (mayStart, ⟨c :: rest, place⟩)

end Cursor

end Equational.Yaml
