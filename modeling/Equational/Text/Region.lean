import Equational.Text.Span

/-! # Lines and columns

    Editors count lines and columns, tokens count bytes. `Position.atOffset`
    walks a text up to a byte offset; `Region.locate` does so for both ends of
    a span.

    Only a line feed ends a line, and a column is one character, whatever its
    width in bytes. Both counts start at 1. An offset beyond the text, or
    inside a character, is shown at the end of the text.

    An editor is handed both numbers in 32 bits (`Position.wrapped`).
-/

namespace Equational

/-- A place between two characters of a text. -/
structure Position where
  line : Nat
  column : Nat
deriving DecidableEq, Repr

namespace Position

/-- The place before the first character. -/
def first : Position :=
  ⟨1, 1⟩

/-- The place behind a character. -/
def after (position : Position) (c : Char) : Position :=
  if c = '\n' then ⟨position.line + 1, 1⟩ else ⟨position.line, position.column + 1⟩

/-- The place `offset` bytes further on, walking over `characters`. -/
def walk (position : Position) : List Char → Nat → Position
  | [], _ => position
  | c :: rest, offset =>
    if offset = 0 then position
    else if c.utf8Size ≤ offset then walk (position.after c) rest (offset - c.utf8Size)
    else (c :: rest).foldl after position

/-- The place of a byte offset of a text. -/
def atOffset (text : String) (offset : Nat) : Position :=
  first.walk text.toList offset

/-- The place with its numbers in 32 bits: larger counts wrap around. -/
def wrapped (position : Position) : Position :=
  ⟨position.line % 0x1_0000_0000, position.column % 0x1_0000_0000⟩

theorem wrapped_eq_self {position : Position} (hline : position.line < 0x1_0000_0000)
    (hcolumn : position.column < 0x1_0000_0000) : position.wrapped = position := by
  rw [wrapped, Nat.mod_eq_of_lt hline, Nat.mod_eq_of_lt hcolumn]

@[simp] theorem walk_zero (position : Position) (characters : List Char) :
    position.walk characters 0 = position := by
  cases characters <;> simp [walk]

end Position

/-- The part of a text between two places. -/
structure Region where
  start : Position
  stop : Position
deriving DecidableEq, Repr

/-- The region that a span of a text covers. -/
def Region.locate (text : String) (span : Span) : Region :=
  ⟨.atOffset text span.start, .atOffset text span.stop⟩

end Equational
