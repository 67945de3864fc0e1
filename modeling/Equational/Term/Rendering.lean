import Std.Data.TreeMap
import Equational.Term.Basic

/-! # Terms as text

    A term is written as its name behind its sort, `Number:inc(Number:zero())`.
    The sort is left out wherever it is the one `omitted`, which is how terms
    are read back under that sort as the default.

    A **printer** writes the applications of one sort its own way, at any depth
    of a term. Variables are never handed to a printer.
-/

namespace Equational

/-- The texts with commas between them. -/
def commaSeparated : List String → String
  | [] => ""
  | [text] => text
  | text :: texts => text ++ ", " ++ commaSeparated texts

/-- Writes the applications of one sort. -/
abbrev Printer := Term → String

/-- A printer for each of finitely many sorts. -/
abbrev Printers := Std.TreeMap String Printer

namespace Term

/-- A name behind its sort, unless that sort is left out. -/
def renderName (omitted : Option String) (sort name : String) : String :=
  if omitted = some sort then name else sort ++ ":" ++ name

mutual
/-- The text of a term, with the help of printers. -/
def renderWith (omitted : Option String) (printers : Printers) : Term → String
  | .app operation sort arguments =>
    match printers[sort]? with
    | some print => print (.app operation sort arguments)
    | none =>
      renderName omitted sort operation ++ "(" ++
        commaSeparated (renderAllWith omitted printers arguments) ++ ")"
  | .var name sort => renderName omitted sort name
/-- The companion of `renderWith` on argument lists. -/
def renderAllWith (omitted : Option String) (printers : Printers) : List Term → List String
  | [] => []
  | t :: ts => renderWith omitted printers t :: renderAllWith omitted printers ts
end

/-- The text of a term. -/
def render (omitted : Option String) (term : Term) : String :=
  term.renderWith omitted ∅

/-- The text of a term with all sorts written. -/
def text (term : Term) : String :=
  term.render none

end Term

end Equational
