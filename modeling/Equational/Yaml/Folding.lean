import Equational.Yaml.Cursor

/-! # Gaps between words

    A scalar may go on over several lines. The blanks and line breaks between
    two of its words make up a **gap**, which is folded: a single line break
    stands for a space, and of several the first is left out. Blanks beside a
    line break do not count.
-/

namespace Equational.Yaml

/-- The blanks since the last word, or its first line break and the breaks after
    that one, each in reverse order. A line break that is escaped counts for
    nothing, so the first may be missing. -/
inductive Gap where
  | blanks (taken : List Char)
  | breaks (first : Option Char) (more : List Char)
deriving DecidableEq, Repr

namespace Gap

/-- Nothing between two characters. -/
def none : Gap :=
  .blanks []

/-- The gap with a blank or a line break added. -/
def add (c : Char) : Gap → Gap
  | .blanks taken => if isBreak c then .breaks (some c) [] else .blanks (c :: taken)
  | .breaks first more => if isBreak c then .breaks first (c :: more) else .breaks first more

/-- Whether the gap holds a line break. -/
def hasBreak : Gap → Bool
  | .blanks _ => false
  | .breaks _ _ => true

/-- The characters `taken` before the gap and those it stands for, in reverse
    order. Only a line feed is folded. -/
def join (taken : List Char) : Gap → List Char
  | .blanks between => between ++ taken
  | .breaks (some '\n') [] => ' ' :: taken
  | .breaks (some '\n') more => more ++ taken
  | .breaks first more => more ++ (first.toList ++ taken)

end Gap

end Equational.Yaml
