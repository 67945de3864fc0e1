import Equational.Proofs.Grammar.Reading
import Equational.Term.Rendering

/-! # The text of a term

    A term is written as the lexemes of its phrase, with the help of printers or
    without. A text that is followed by a blank or a symbol **prints** lexemes
    when it spells them before whatever comes next; texts are put together from
    left to right, so a name only has to know that its end is seen.
-/

namespace Equational

/-! ## Printed texts -/

/-- The text spells the lexemes before anything that ends a word. -/
def Prints (text : String) (lexemes : List Lexeme) : Prop :=
  ∀ rest more, endsWord rest = true → Spells rest more →
    Spells (text.toList ++ rest) (lexemes ++ more)

theorem prints_lexeme {lexeme : Lexeme} (h : lexeme.WellFormed) : Prints lexeme.text [lexeme] :=
  fun _ _ hrest hspells => .lexeme h (fun _ => hrest) hspells

theorem Head.prints (omitted : Option String) {sort name : String} (hsort : Lexical sort)
    (hname : Lexical name) :
    Prints (Term.renderName omitted sort name) [(Head.ofName omitted sort name).lexeme] := by
  unfold Term.renderName Head.ofName
  split
  · exact prints_lexeme (show (Lexeme.identifier name).WellFormed from hname)
  · exact prints_lexeme (show (Lexeme.qualified sort name).WellFormed from ⟨hsort, hname⟩)

/-! ## Lists with commas -/

theorem commaSeparated_cons (text : String) (texts : List String) :
    (commaSeparated (text :: texts)).toList =
      text.toList ++ texts.flatMap fun other => ',' :: ' ' :: other.toList := by
  induction texts generalizing text with
  | nil => simp [commaSeparated]
  | cons other texts ih => simp [commaSeparated, ih]

/-- Lists of lexemes with commas between them. -/
def commaLexemes : List (List Lexeme) → List Lexeme
  | [] => []
  | lexemes :: others => lexemes ++ others.flatMap (.symbol .comma :: ·)

/-- Texts, each with the comma and the blank before it. -/
theorem spells_more {texts : List String} {lexemes : List (List Lexeme)}
    (h : List.Forall₂ Prints texts lexemes) {rest : List Char} {more : List Lexeme}
    (hrest : endsWord rest = true) (hspells : Spells rest more) :
    endsWord ((texts.flatMap fun other => ',' :: ' ' :: other.toList) ++ rest) = true ∧
      Spells ((texts.flatMap fun other => ',' :: ' ' :: other.toList) ++ rest)
        (lexemes.flatMap (.symbol .comma :: ·) ++ more) := by
  induction h with
  | nil => exact ⟨hrest, hspells⟩
  | @cons text printed texts lexemes hprints _ ih =>
    obtain ⟨hends, hmore⟩ := ih
    have htext := hprints _ _ hends hmore
    have hcomma := Spells.symbol .comma htext.space
    refine ⟨rfl, ?_⟩
    simpa [Symbol.text] using hcomma

theorem prints_commaSeparated {texts : List String} {lexemes : List (List Lexeme)}
    (h : List.Forall₂ Prints texts lexemes) :
    Prints (commaSeparated texts) (commaLexemes lexemes) := by
  intro rest more hrest hspells
  cases h with
  | nil => simpa [commaSeparated, commaLexemes] using hspells
  | cons hprints hothers =>
    obtain ⟨hends, hmore⟩ := spells_more hothers hrest hspells
    have htext := hprints _ _ hends hmore
    rw [commaSeparated_cons, commaLexemes, List.append_assoc, List.append_assoc]
    exact htext

theorem Phrase.moreLexemes_eq (arguments : List Phrase) :
    moreLexemes arguments =
      (arguments.map lexemes).flatMap (.symbol .comma :: ·) ++ [.symbol .rparen] := by
  induction arguments with
  | nil => rfl
  | cons a arguments ih => simp [moreLexemes, ih]

theorem Phrase.argumentLexemes_eq (arguments : List Phrase) :
    argumentLexemes arguments = commaLexemes (arguments.map lexemes) ++ [.symbol .rparen] := by
  cases arguments with
  | nil => rfl
  | cons a arguments => simp [argumentLexemes, commaLexemes, moreLexemes_eq]

/-- A name with texts in parentheses behind it. -/
theorem prints_application {text : String} {head : Head} {texts : List String}
    {arguments : List Phrase} (hhead : Prints text [head.lexeme])
    (harguments : List.Forall₂ Prints texts (arguments.map Phrase.lexemes)) :
    Prints (text ++ "(" ++ commaSeparated texts ++ ")")
      (Phrase.application head arguments).lexemes := by
  -- from the right: each text is put before what comes after it
  intro rest more _ hspells
  have hclosing := Spells.symbol .rparen hspells
  have hlist := prints_commaSeparated harguments _ _ rfl hclosing
  have hopening := Spells.symbol .lparen hlist
  have happlied := hhead _ _ rfl hopening
  rw [Phrase.lexemes, Phrase.argumentLexemes_eq]
  simpa [Symbol.text] using happlied

/-! ## Terms -/

namespace Term

theorem renderAllWith_eq_map (omitted : Option String) (printers : Printers) (ts : List Term) :
    renderAllWith omitted printers ts = ts.map (renderWith omitted printers) := by
  induction ts with
  | nil => rfl
  | cons t ts ih => simp [renderAllWith, ih]

theorem render_app (omitted : Option String) (operation sort : String) (arguments : List Term) :
    render omitted (.app operation sort arguments) =
      renderName omitted sort operation ++ "(" ++
        commaSeparated (arguments.map (render omitted)) ++ ")" := by
  have hprinter : (∅ : Printers)[sort]? = none := by simp
  have hrender : render omitted = renderWith omitted ∅ := rfl
  rw [render, renderWith, hprinter, renderAllWith_eq_map, hrender]

theorem render_var (omitted : Option String) (name sort : String) :
    render omitted (.var name sort) = renderName omitted sort name := by
  rw [render, renderWith]

/-- All names and sorts of the term are lexical. -/
def LexicalNames (term : Term) : Prop :=
  ∀ u : Term, u.Subterm term → Lexical u.name ∧ Lexical u.sort

/-- With the help of printers that write names, a term is written with the lexemes
    of its phrase. -/
theorem prints_renderWith (omitted : Option String) {printers : Printers} {term : Term}
    (h : term.LexicalNames)
    (hprinted : ∀ u : Term, u.Subterm term → u.isApplication = true →
      ∀ print ∈ printers[u.sort]?, Lexical (print u)) :
    Prints (term.renderWith omitted printers) (term.phraseWith omitted printers).lexemes := by
  induction term using Term.induct with
  | var name sort =>
    obtain ⟨hname, hsort⟩ := h _ (.refl _)
    rw [renderWith, phraseWith, Phrase.lexemes]
    exact Head.prints omitted hsort hname
  | app operation sort arguments ih =>
    obtain ⟨⟨hname, hsort⟩, harguments⟩ := Term.forall_subterm_app.mp h
    cases hprinter : printers[sort]? with
    | some print =>
      have hroot := hprinted (.app operation sort arguments) (.refl _) rfl print hprinter
      rw [renderWith, phraseWith, hprinter]
      exact prints_lexeme (show (Lexeme.identifier _).WellFormed from hroot)
    | none =>
      have heach : List.Forall₂ Prints (arguments.map (renderWith omitted printers))
          ((arguments.map (phraseWith omitted printers)).map Phrase.lexemes) := by
        rw [List.map_map, List.forall₂_map_left_iff, List.forall₂_map_right_iff, List.forall₂_same]
        intro a ha
        exact ih a ha (harguments a ha) fun u hu => hprinted u (.argument operation sort ha hu)
      rw [renderWith, phraseWith, hprinter, renderAllWith_eq_map, phrasesWith_eq_map]
      exact prints_application (Head.prints omitted hsort hname) heach

/-- A term is written with the lexemes of its phrase. -/
theorem prints_render (omitted : Option String) {term : Term} (h : term.LexicalNames) :
    Prints (term.render omitted) (term.phrase omitted).lexemes := by
  rw [render, ← phraseWith_empty]
  exact prints_renderWith omitted h (by simp)

end Term

end Equational
