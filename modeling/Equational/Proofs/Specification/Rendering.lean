import Equational.Proofs.Grammar.Specification
import Equational.Proofs.Term.Rendering

/-! # The text of a specification

    A specification whose names are lexical is written, with blanks and line
    ends between them, as the lexemes that it is read from.
-/

namespace Equational

/-! ## Parts -/

theorem moreSortLexemes_eq (sorts : List String) :
    moreSortLexemes sorts =
      (sorts.map fun sort => [Lexeme.identifier sort]).flatMap (.symbol .comma :: ·) := by
  induction sorts with
  | nil => rfl
  | cons sort sorts ih => simp [moreSortLexemes, ih]

theorem sortLexemes_eq (sorts : List String) :
    sortLexemes sorts = commaLexemes (sorts.map fun sort => [Lexeme.identifier sort]) := by
  cases sorts with
  | nil => rfl
  | cons sort sorts => simp [sortLexemes, commaLexemes, moreSortLexemes_eq]

theorem prints_identifier {name : String} (h : Lexical name) : Prints name [.identifier name] :=
  prints_lexeme (show (Lexeme.identifier name).WellFormed from h)

theorem prints_sorts {sorts : List String} (h : ∀ sort ∈ sorts, Lexical sort) :
    Prints (commaSeparated sorts) (sortLexemes sorts) := by
  rw [sortLexemes_eq]
  apply prints_commaSeparated
  rw [List.forall₂_map_right_iff, List.forall₂_same]
  exact fun sort hsort => prints_identifier (h sort hsort)

/-- The names of a declaration are lexical. -/
structure Operation.LexicalNames (operation : Operation) : Prop where
  name : Lexical operation.name
  argumentSorts : ∀ sort ∈ operation.argumentSorts, Lexical sort
  resultSort : Lexical operation.resultSort

theorem prints_operation {operation : Operation} (h : operation.LexicalNames) :
    Prints operation.text operation.lexemes := by
  intro rest more hrest hspells
  have hresult := prints_identifier h.resultSort _ _ hrest hspells
  have harrow := Spells.symbol .arrow hresult.space
  have hclosing := Spells.symbol .rparen harrow.space
  have hsorts := prints_sorts h.argumentSorts _ _ rfl hclosing
  have hname := prints_identifier h.name _ _ rfl (Spells.symbol .lparen hsorts)
  simpa [Operation.text, Operation.lexemes, Symbol.text] using hname

/-- The equation that a rule is printed as. -/
def Rule.equation (sort : String) (rule : Rule) : Equation :=
  ⟨rule.pattern.phrase (some sort), rule.template.phrase (some sort)⟩

theorem prints_rule (sort : String) {rule : Rule} (hpattern : rule.pattern.LexicalNames)
    (htemplate : rule.template.LexicalNames) :
    Prints (rule.text sort) (rule.equation sort).lexemes := by
  intro rest more hrest hspells
  have hright := Term.prints_render (some sort) htemplate _ _ hrest hspells
  have hequal := Spells.symbol .equal hright.space
  have hleft := Term.prints_render (some sort) hpattern _ _ rfl hequal.space
  simpa [Rule.text, Rule.equation, Equation.lexemes, Symbol.text] using hleft

theorem Heading.wellFormed (heading : Heading) : (Lexeme.keyword heading.word).WellFormed := by
  cases heading with
  | type => exact ⟨by decide, by decide⟩
  | sorts => exact ⟨by decide, by decide⟩
  | operations => exact ⟨by decide, by decide⟩
  | axioms => exact ⟨by decide, by decide⟩

/-- Lines, each behind a tabulator. -/
theorem spells_lines {α : Type} {text : α → String} {lexemes : α → List Lexeme} {items : List α}
    (h : ∀ item ∈ items, Prints (text item) (lexemes item)) {rest : List Char}
    {more : List Lexeme} (hspells : Spells rest more) :
    Spells ((String.join (items.map fun item => "\t" ++ text item ++ "\n")).toList ++ rest)
      (items.flatMap lexemes ++ more) := by
  induction items with
  | nil => simpa using hspells
  | cons item items ih =>
    rw [List.forall_mem_cons] at h
    have hline := (ih h.2).lineEnd
    have htext := (h.1 _ _ rfl hline).tabulator
    simpa using htext

/-! ## The whole text -/

namespace Specification

/-- All names of a specification are lexical. -/
structure LexicalNames (specification : Specification) : Prop where
  name : Lexical specification.name
  dependencies : ∀ sort ∈ specification.dependencies, Lexical sort
  operations : ∀ operation ∈ specification.operations, operation.LexicalNames
  terms : ∀ u, specification.Contains u → Lexical u.name ∧ Lexical u.sort

/-- The text of a specification holds the lexemes that it is read from. -/
theorem spells_text {specification : Specification} (h : specification.LexicalNames) :
    Spells specification.text.toList
      (specificationLexemes specification.name specification.dependencies
        specification.operations (specification.rules.map (Rule.equation specification.name))) := by
  have hrules : ∀ rule ∈ specification.rules,
      Prints (rule.text specification.name) (rule.equation specification.name).lexemes := by
    intro rule hrule
    exact prints_rule specification.name (fun u hu => h.terms u ⟨rule, hrule, .inl hu⟩)
      (fun u hu => h.terms u ⟨rule, hrule, .inr hu⟩)
  have hdeclarations : ∀ operation ∈ specification.operations,
      Prints operation.text operation.lexemes := by
    intro operation hoperation
    exact prints_operation (h.operations operation hoperation)
  -- from the last section to the first, each before what comes after it
  have hlines := spells_lines hrules .nil
  have haxioms := prints_lexeme (Heading.wellFormed .axioms) _ _ rfl hlines.lineEnd
  have hoperations := spells_lines hdeclarations haxioms
  have hheading := prints_lexeme (Heading.wellFormed .operations) _ _ rfl hoperations.lineEnd
  have hdependencies := prints_sorts h.dependencies _ _ rfl hheading.lineEnd
  have hsorts := prints_lexeme (Heading.wellFormed .sorts) _ _ rfl hdependencies.space
  have hname := prints_identifier h.name _ _ rfl hsorts.lineEnd
  have htype := prints_lexeme (Heading.wellFormed .type) _ _ rfl hname.space
  simpa [text, specificationLexemes, Lexeme.text, Heading.word, List.flatMap_map] using htype

end Specification

end Equational
