import Equational.Yaml.Folding
import Equational.Yaml.Scalar

/-! # Quoted scalars

    Between single quotes a quote is written twice. Between double quotes a
    backslash starts an escape sequence, and before the end of a line it joins
    the line to the next. No line of a quoted scalar may start with the mark of
    a document.
-/

namespace Equational.Yaml

/-- Reads up to the closing single quote. -/
def readSingleQuoted? (taken : List Char) (gap : Gap) (characters : List Char) (place : Place) :
    Option (String × Cursor) :=
  match characters with
  | [] => none
  | c :: rest =>
    if isGap c then readSingleQuoted? taken (gap.add c) rest (place.after c)
    else if place.column == 0 && startsDocumentMark (c :: rest) then none
    else if c != '\'' then
      readSingleQuoted? (c :: gap.join taken) Gap.none rest (place.after c)
    else
      match rest with
      | '\'' :: rest =>
        readSingleQuoted? ('\'' :: gap.join taken) Gap.none rest ((place.after c).after c)
      | rest => some (String.ofList (gap.join taken).reverse, ⟨rest, place.after c⟩)
termination_by characters.length

/-- The character that a letter behind a backslash stands for. -/
def escaped? (letter : Char) : Option Char :=
  [('0', '\x00'), ('a', '\x07'), ('b', '\x08'), ('t', '\t'), ('\t', '\t'), ('n', '\n'),
    ('v', '\x0b'), ('f', '\x0c'), ('r', '\r'), ('e', '\x1b'), (' ', ' '), ('"', '"'), ('/', '/'),
    ('\\', '\\'), ('N', '\u0085'), ('_', '\u00a0'), ('L', '\u2028'), ('P', '\u2029')].lookup letter

/-- The number of hexadecimal digits that follow a letter behind a backslash. -/
def codeLength? (letter : Char) : Option Nat :=
  [('x', 2), ('u', 4), ('U', 8)].lookup letter

/-- The character whose code point `count` hexadecimal digits give. -/
def character? (count : Nat) (digits : List Char) : Option Char := do
  guard (digits.length = count)
  let value ← number? 16 digits
  if h : value.isValidChar then some (Char.ofNatAux value h) else none

/-- Reads up to the closing double quote. -/
def readDoubleQuoted? (taken : List Char) (gap : Gap) (characters : List Char) (place : Place) :
    Option (String × Cursor) :=
  match characters with
  | [] => none
  | c :: rest =>
    if isGap c then readDoubleQuoted? taken (gap.add c) rest (place.after c)
    else if place.column == 0 && startsDocumentMark (c :: rest) then none
    else if c == '"' then some (String.ofList (gap.join taken).reverse, ⟨rest, place.after c⟩)
    else if c != '\\' then
      readDoubleQuoted? (c :: gap.join taken) Gap.none rest (place.after c)
    else
      match rest with
      | [] => none
      | letter :: rest =>
        let behind : Cursor := ⟨rest, (place.after c).after letter⟩
        if isBreak letter then
          -- an escaped break joins the lines, and the blanks before it stay
          readDoubleQuoted? (gap.join taken) (.breaks none []) rest behind.place
        else
          match codeLength? letter with
          | some count =>
            match character? count (rest.take count) with
            | some escape =>
              readDoubleQuoted? (escape :: gap.join taken) Gap.none (rest.drop count)
                (behind.drop count).place
            | none => none
          | none =>
            match escaped? letter with
            | some escape =>
              readDoubleQuoted? (escape :: gap.join taken) Gap.none rest behind.place
            | none => none
termination_by characters.length

end Equational.Yaml
