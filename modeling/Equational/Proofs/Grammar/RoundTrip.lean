import Equational.Proofs.Grammar.Statement
import Equational.Proofs.Term.Rendering

/-! # Reading and writing terms and statements

    A text is read as a term when it spells the lexemes of a phrase for it, and
    as statements when it spells those of sentences (`Term.parse_eq_ok_iff`,
    `Statement.parse_eq_ok_iff`). The grammar looks at nothing else, so blanks
    and line ends may stand anywhere between the lexemes.

    A term with lexical names is printed as its phrase, and a statement as the
    sentence that is made of it. Without literals each reads as what it was
    printed from, whether one sort is left out or none is. In the other
    direction, the names of a term that was read are lexical, since a text
    spells no others.
-/

namespace Equational

/-! ## Texts that are read -/

section Texts

variable {text defaultSort : String} {literals : List Literal}

theorem Term.parse_eq_ok_iff {term : Term} :
    Term.parse text defaultSort literals = .ok term ↔
      ∃ phrase : Phrase, Spells text.toList phrase.lexemes ∧
        Scope.reading ⟨defaultSort, none, literals⟩ phrase = term := by
  rw [Term.parse, bind_eq_ok_iff]
  constructor
  · intro h
    obtain ⟨tokens, htokens, h⟩ := h
    obtain ⟨phrase, hlexemes, -, hreading⟩ := Term.ofTokens_eq_ok_iff.mp h
    refine ⟨phrase, ?_, hreading⟩
    exact Token.tokenize_iff_spells.mp ⟨tokens, readTokens_eq_ok_iff.mp htokens, hlexemes.symm⟩
  · intro h
    obtain ⟨phrase, hspells, hreading⟩ := h
    obtain ⟨tokens, htokens, hlexemes⟩ := Token.tokenize_iff_spells.mpr hspells
    refine ⟨tokens, readTokens_eq_ok_iff.mpr htokens, ?_⟩
    exact Term.ofTokens_eq_ok_iff.mpr
      ⟨phrase, hlexemes.symm, Scope.admits_of_unchecked rfl phrase, hreading⟩

theorem Statement.parse_eq_ok_iff {statements : List Statement} :
    Statement.parse text defaultSort literals = .ok statements ↔
      ∃ sentences : List Sentence, sentences ≠ [] ∧
        Spells text.toList (sentences.flatMap Sentence.lexemes) ∧
        sentences.map (Sentence.reading ⟨defaultSort, none, literals⟩) = statements := by
  rw [Statement.parse, bind_eq_ok_iff]
  constructor
  · intro h
    obtain ⟨tokens, htokens, h⟩ := h
    obtain ⟨sentences, hne, hlexemes, hreadings⟩ := (Statement.ofTokens_eq_ok_iff rfl).mp h
    refine ⟨sentences, hne, ?_, hreadings⟩
    exact Token.tokenize_iff_spells.mp ⟨tokens, readTokens_eq_ok_iff.mp htokens, hlexemes.symm⟩
  · intro h
    obtain ⟨sentences, hne, hspells, hreadings⟩ := h
    obtain ⟨tokens, htokens, hlexemes⟩ := Token.tokenize_iff_spells.mpr hspells
    refine ⟨tokens, readTokens_eq_ok_iff.mpr htokens, ?_⟩
    exact (Statement.ofTokens_eq_ok_iff rfl).mpr ⟨sentences, hne, hlexemes.symm, hreadings⟩

end Texts

/-! ## The text of statements -/

namespace Statement

/-- The statement as text, with one sort left out of its term. -/
def text (omitted : Option String) : Statement → String
  | assignment name term => name ++ " = " ++ term.render omitted
  | expression term => term.render omitted

/-- The statements, each on a line of its own. -/
def lines (omitted : Option String) (statements : List Statement) : String :=
  "\n".intercalate (statements.map (text omitted))

/-- The names in the statement are lexical, also the one that is assigned to. -/
def LexicalNames : Statement → Prop
  | assignment name term => Lexical name ∧ term.LexicalNames
  | expression term => term.LexicalNames

/-- The sentence that the statement is printed as. -/
def sentence (omitted : Option String) : Statement → Sentence
  | assignment name term => .assignment name (term.phrase omitted)
  | expression term => .expression (term.phrase omitted)

theorem prints_text (omitted : Option String) {statement : Statement}
    (h : statement.LexicalNames) :
    Prints (statement.text omitted) (statement.sentence omitted).lexemes := by
  cases statement with
  | expression term => exact Term.prints_render omitted h
  | assignment name term =>
    obtain ⟨hname, hterm⟩ := h
    intro rest more hrest hspells
    have hright := Term.prints_render omitted hterm _ _ hrest hspells
    have hequal := Spells.symbol .equal hright.space
    have hleft := prints_lexeme (show (Lexeme.identifier name).WellFormed from hname) _ _ rfl
      hequal.space
    simpa [text, sentence, Sentence.lexemes, Lexeme.text, Symbol.text] using hleft

/-- Lines are printed one after the other: a line end ends any word. -/
theorem spells_lines (omitted : Option String) {statements : List Statement}
    (h : ∀ statement ∈ statements, statement.LexicalNames) :
    Spells (lines omitted statements).toList
      ((statements.map (sentence omitted)).flatMap Sentence.lexemes) := by
  induction statements with
  | nil =>
    rw [lines, List.map_nil, String.intercalate_nil]
    exact .nil
  | cons statement statements ih =>
    rw [List.forall_mem_cons] at h
    have hfirst := prints_text omitted h.1
    have hothers := ih h.2
    cases statements with
    | nil => simpa [lines] using hfirst [] [] rfl .nil
    | cons other statements =>
      have hline := hfirst _ _ rfl hothers.lineEnd
      rw [lines, List.map_cons, String.intercalate_cons_of_ne_nil (by simp)]
      simpa [lines] using hline

end Statement

/-! ## Reading what was written -/

section RoundTrip

variable {defaultSort : String}

/-- Without literals and a signature, a bare name is a variable. -/
theorem Scope.nameTerm_plain (defaultSort name sort : String) :
    (⟨defaultSort, none, []⟩ : Scope).nameTerm name sort = .var name sort := rfl

/-- A term is what its own phrase reads as, if the sort that is left out is the
    default. -/
theorem Term.reading_phrase {omitted : Option String}
    (homitted : ∀ sort ∈ omitted, sort = defaultSort) (term : Term) :
    Scope.reading ⟨defaultSort, none, []⟩ (term.phrase omitted) = term := by
  apply Scope.reading_phrase homitted
  intro u _ hvariable
  cases u with
  | app operation sort arguments => simp [Term.isVariable] at hvariable
  | var name sort => exact Scope.nameTerm_plain defaultSort name sort

theorem Statement.reading_sentence {omitted : Option String}
    (homitted : ∀ sort ∈ omitted, sort = defaultSort) (statement : Statement) :
    (statement.sentence omitted).reading ⟨defaultSort, none, []⟩ = statement := by
  cases statement with
  | assignment name term => rw [sentence, Sentence.reading, term.reading_phrase homitted]
  | expression term => rw [sentence, Sentence.reading, term.reading_phrase homitted]

theorem Term.parse_render {omitted : Option String}
    (homitted : ∀ sort ∈ omitted, sort = defaultSort) {term : Term} (h : term.LexicalNames) :
    Term.parse (term.render omitted) defaultSort [] = .ok term := by
  refine Term.parse_eq_ok_iff.mpr ⟨term.phrase omitted, ?_, term.reading_phrase homitted⟩
  simpa using Term.prints_render omitted h [] [] rfl .nil

/-- The names of a term that was read are those that the text spells, or the
    default sort. -/
theorem Term.lexicalNames_of_parse (hdefault : Lexical defaultSort) {text : String} {term : Term}
    (h : Term.parse text defaultSort [] = .ok term) : term.LexicalNames := by
  obtain ⟨phrase, hspells, rfl⟩ := Term.parse_eq_ok_iff.mp h
  intro u hu
  have hnone : ∀ signature, signature ∉ (none : Option Signature) := by simp
  have hadmits : (⟨defaultSort, none, []⟩ : Scope).Admits phrase :=
    Scope.admits_of_unchecked rfl phrase
  rcases Scope.named_or_inLiteral hdefault
    (fun signature hsignature => absurd hsignature (hnone signature))
    (fun signature hsignature => absurd hsignature (hnone signature)) hspells.wellFormed
    hadmits u hu with hnamed | ⟨_, _, _, hread, -⟩
  · exact ⟨hnamed.name, hnamed.sort⟩
  · -- no literal has read anything
    simp [Literal.read?] at hread

theorem Statement.parse_lines {omitted : Option String}
    (homitted : ∀ sort ∈ omitted, sort = defaultSort) {statements : List Statement}
    (hne : statements ≠ []) (h : ∀ statement ∈ statements, statement.LexicalNames) :
    Statement.parse (lines omitted statements) defaultSort [] = .ok statements := by
  refine Statement.parse_eq_ok_iff.mpr
    ⟨statements.map (sentence omitted), by simpa using hne, spells_lines omitted h, ?_⟩
  rw [List.map_map]
  exact List.map_id'' (reading_sentence homitted) statements

end RoundTrip

/-- Reading without literals is the inverse of writing. A term with lexical names
    is read back from its text, under any default sort when all sorts are written
    and under the one left out otherwise; and so are statements, from one line
    each. Under a lexical default sort no other names are ever read. -/
theorem reading_inverts_writing (defaultSort : String) :
    (∀ term : Term, term.LexicalNames →
      Term.parse (term.render none) defaultSort [] = .ok term ∧
      Term.parse (term.render (some defaultSort)) defaultSort [] = .ok term) ∧
    (Lexical defaultSort → ∀ text term, Term.parse text defaultSort [] = .ok term →
      term.LexicalNames) ∧
    ∀ statements : List Statement, statements ≠ [] →
      (∀ statement ∈ statements, statement.LexicalNames) →
      Statement.parse (Statement.lines none statements) defaultSort [] = .ok statements ∧
      Statement.parse (Statement.lines (some defaultSort) statements) defaultSort [] =
        .ok statements := by
  have hnone : ∀ sort ∈ (none : Option String), sort = defaultSort := by simp
  have hsome : ∀ sort ∈ some defaultSort, sort = defaultSort := by simp
  refine ⟨?_, ?_, ?_⟩
  · intro term hterm
    exact ⟨Term.parse_render hnone hterm, Term.parse_render hsome hterm⟩
  · intro hdefault text term h
    exact Term.lexicalNames_of_parse hdefault h
  · intro statements hne hall
    exact ⟨Statement.parse_lines hnone hne hall, Statement.parse_lines hsome hne hall⟩

/-- An assignment and a name after it. Only `s` and the root of the term have
    other sorts than the default, and the line end keeps the name apart. -/
theorem assignment_and_name_round_trip :
    let term : Term := .app "is-empty" "bool" [.app "pop" "Stack" [.var "s" "Queue"]]
    let statements : List Statement := [.assignment "b" term, .expression (.var ">x" "Stack")]
    (∀ statement ∈ statements, statement.LexicalNames) ∧
      term.render (some "Stack") = "bool:is-empty(pop(Queue:s))" ∧
      Term.parse "bool:is-empty(pop(Queue:s))" "Stack" [] = .ok term ∧
      Statement.lines (some "Stack") statements = "b = bool:is-empty(pop(Queue:s))\n>x" ∧
      Statement.parse "b = bool:is-empty(pop(Queue:s))\n>x" "Stack" [] = .ok statements ∧
      Term.parse ">x" "Stack" [] = .ok (.var ">x" "Stack") ∧
      (Term.var ">x" "Stack").LexicalNames := by
  intro term statements
  obtain ⟨hterms, hnames, hstatements⟩ := reading_inverts_writing "Stack"
  have hterm : term.LexicalNames := by
    refine Term.forall_subterm_app.mpr ⟨by decide, List.forall_mem_singleton.mpr ?_⟩
    refine Term.forall_subterm_app.mpr ⟨by decide, List.forall_mem_singleton.mpr ?_⟩
    exact Term.forall_subterm_var.mpr (by decide)
  have hread : Term.parse ">x" "Stack" [] = .ok (.var ">x" "Stack") := by cbv
  have hname := hnames (by decide) _ _ hread
  have hall : ∀ statement ∈ statements, statement.LexicalNames :=
    List.forall_mem_cons.mpr ⟨⟨by decide, hterm⟩, List.forall_mem_singleton.mpr hname⟩
  have hrender : term.render (some "Stack") = "bool:is-empty(pop(Queue:s))" := by cbv
  have hlines : Statement.lines (some "Stack") statements =
      "b = bool:is-empty(pop(Queue:s))\n>x" := by cbv
  refine ⟨hall, hrender, ?_, hlines, ?_, hread, hname⟩
  · rw [← hrender]
    exact (hterms term hterm).2
  · rw [← hlines]
    exact (hstatements statements (by simp [statements]) hall).2

end Equational
