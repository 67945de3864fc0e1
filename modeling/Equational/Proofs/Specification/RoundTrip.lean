import Equational.Proofs.Specification.Rendering
import Mathlib

/-! # Reading and writing specifications

    A specification is **writable** when its names are lexical, its parts are
    accepted, and none of its variables is named as a constant is: of the own
    sort, such a name is read as the constant. These are the specifications
    that texts without literals are read as, and each is read back from its own
    text.

    The proof goes through the lexemes. A text is read as a specification when
    it spells the lexemes that the specification is written with
    (`parse_eq_ok_iff`). What stands in the rules is then named by the text or
    stands in a literal (`named_or_inLiteral_of_parse`), and names that a text
    spells are lexical.
-/

namespace Equational

/-! ## Lexical names -/

theorem mem_moreSortLexemes {sort : String} {sorts : List String} (h : sort ∈ sorts) :
    .identifier sort ∈ moreSortLexemes sorts := by
  induction sorts with
  | nil => simp at h
  | cons other sorts ih =>
    rw [moreSortLexemes]
    rcases List.mem_cons.mp h with rfl | h
    · simp
    · simp [ih h]

/-- Sorts are written by their names. -/
theorem lexical_of_sortLexemes {sorts : List String}
    (h : ∀ lexeme ∈ sortLexemes sorts, lexeme.WellFormed) : ∀ sort ∈ sorts, Lexical sort := by
  intro sort hsort
  suffices hmem : .identifier sort ∈ sortLexemes sorts from h _ hmem
  cases sorts with
  | nil => simp at hsort
  | cons other sorts =>
    rcases List.mem_cons.mp hsort with rfl | hsort
    · simp [sortLexemes]
    · simp [sortLexemes, mem_moreSortLexemes hsort]

theorem Operation.lexicalNames_of_wellFormed {operation : Operation}
    (h : ∀ lexeme ∈ operation.lexemes, lexeme.WellFormed) : operation.LexicalNames := by
  simp only [Operation.lexemes, List.forall_mem_cons, List.forall_mem_append] at h
  obtain ⟨hname, -, hsorts, -, -, hresult, -⟩ := h
  exact ⟨hname, lexical_of_sortLexemes hsorts, hresult⟩

/-- All nodes of the terms that a literal stands for have lexical names, and
    are applications. -/
def Literal.Closed (literal : Literal) : Prop :=
  ∀ name sort term, literal name sort = some term → ∀ u : Term, u.Subterm term →
    (Lexical u.name ∧ Lexical u.sort) ∧ u.isVariable = false

namespace Specification

variable {specification : Specification} {literals : List Literal} {text : String}

/-! ## Texts and lexemes -/

/-- A text is read as a specification when it spells the lexemes of one. -/
theorem parse_eq_ok_iff :
    parse text literals = .ok specification ↔
      ∃ equations, Spells text.toList (specificationLexemes specification.name
          specification.dependencies specification.operations equations) ∧
        specification.toSignature.WellFormed ∧
        List.Forall₂ (specification.scope literals).ReadsRule equations specification.rules := by
  rw [parse, bind_eq_ok_iff]
  constructor
  · intro h
    obtain ⟨tokens, htokens, h⟩ := h
    obtain ⟨equations, hlexemes, hrest⟩ := ofTokens_eq_ok_iff.mp h
    have hspells := Token.tokenize_iff_spells.mp
      ⟨tokens, readTokens_eq_ok_iff.mp htokens, hlexemes⟩
    exact ⟨equations, hspells, hrest⟩
  · intro h
    obtain ⟨equations, hspells, hrest⟩ := h
    obtain ⟨tokens, htokens, hlexemes⟩ := Token.tokenize_iff_spells.mpr hspells
    exact ⟨tokens, readTokens_eq_ok_iff.mpr htokens,
      ofTokens_eq_ok_iff.mpr ⟨equations, hlexemes, hrest⟩⟩

/-- All lexemes of a text that was read are well formed. -/
theorem wellFormed_lexemes {equations : List Equation}
    (h : Spells text.toList (specificationLexemes specification.name specification.dependencies
      specification.operations equations)) :
    Lexical specification.name ∧
      (∀ lexeme ∈ sortLexemes specification.dependencies, lexeme.WellFormed) ∧
      (∀ operation ∈ specification.operations, ∀ lexeme ∈ operation.lexemes, lexeme.WellFormed) ∧
      (∀ equation ∈ equations, ∀ lexeme ∈ equation.lexemes, lexeme.WellFormed) := by
  have hformed := h.wellFormed
  simp only [specificationLexemes, List.forall_mem_cons, List.forall_mem_append,
    List.forall_mem_flatMap] at hformed
  obtain ⟨-, hname, -, hsorts, -, hoperations, -, hequations⟩ := hformed
  exact ⟨hname, hsorts, hoperations, hequations⟩

/-! ## The scope of the rules -/

theorem scope_distinct (h : specification.toSignature.WellFormed) :
    (specification.scope literals).Distinct := by
  intro signature hsignature
  cases hsignature
  exact h.distinct

/-- The own sort is known. -/
theorem scope_knows_name : ∀ signature ∈ (specification.scope literals).signature?,
    signature.knows (specification.scope literals).defaultSort = true := by
  intro signature hsignature
  cases hsignature
  simp [scope, Signature.knows]

/-- Without literals every name is admitted. -/
theorem scope_admitsName (name sort : String) : (specification.scope []).AdmitsName name sort := by
  intro literal hliteral
  simp [scope, Literal.read?] at hliteral

/-- Without literals nothing stands in one. -/
theorem not_inLiteral_nil (u : Term) : ¬ (specification.scope []).InLiteral u := by
  intro h
  obtain ⟨name, sort, literal, hread, -⟩ := h
  simp [scope, Literal.read?] at hread

/-! ## What is read is writable -/

/-- A rule that was read has an equation that it is read from. -/
theorem exists_equation {scope : Scope} {equations : List Equation} {rules : List Rule}
    (h : List.Forall₂ scope.ReadsRule equations rules) {rule : Rule} (hrule : rule ∈ rules) :
    ∃ equation ∈ equations, scope.ReadsRule equation rule := by
  induction h with
  | nil => simp at hrule
  | @cons equation rule' equations rules hreads _ ih =>
    rcases List.mem_cons.mp hrule with rfl | hrule
    · exact ⟨equation, List.mem_cons_self, hreads⟩
    · obtain ⟨other, hother, hreads⟩ := ih hrule
      exact ⟨other, List.mem_cons_of_mem _ hother, hreads⟩

/-- What stands in the rules that were read is named by the text, or stands in
    a literal. -/
theorem named_or_inLiteral_of_parse (h : parse text literals = .ok specification) {u : Term}
    (hu : specification.Contains u) :
    (specification.scope literals).Named u ∨ (specification.scope literals).InLiteral u := by
  obtain ⟨equations, hspells, hformed, hrules⟩ := parse_eq_ok_iff.mp h
  obtain ⟨hname, -, -, hequations⟩ := wellFormed_lexemes hspells
  obtain ⟨rule, hrule, hu⟩ := hu
  obtain ⟨equation, hequation, hreads⟩ := exists_equation hrules hrule
  have hlexemes := hequations equation hequation
  rw [Equation.lexemes, List.forall_mem_append, List.forall_mem_cons] at hlexemes
  have hstands : ∀ phrase : Phrase, (∀ lexeme ∈ phrase.lexemes, lexeme.WellFormed) →
      (specification.scope literals).Admits phrase →
      u.Subterm ((specification.scope literals).reading phrase) →
      (specification.scope literals).Named u ∨ (specification.scope literals).InLiteral u := by
    intro phrase hphrase hadmits
    exact Scope.named_or_inLiteral hname scope_knows_name (scope_distinct hformed) hphrase hadmits u
  -- it stands in the pattern or in the template, and both were read from phrases
  rcases hu with hu | hu
  · exact hstands equation.pattern hlexemes.1 hreads.admitsPattern (hreads.pattern ▸ hu)
  · exact hstands equation.template hlexemes.2.2 hreads.admitsTemplate (hreads.template ▸ hu)

/-- What stands in a literal has lexical names, and is no variable. -/
theorem closed_of_inLiteral (hliterals : ∀ literal ∈ literals, literal.Closed) {u : Term}
    (hu : (specification.scope literals).InLiteral u) :
    (Lexical u.name ∧ Lexical u.sort) ∧ u.isVariable = false := by
  obtain ⟨name, sort, term, hread, -, hu⟩ := hu
  obtain ⟨literal, hliteral, hterm⟩ := List.exists_of_findSome?_eq_some hread
  exact hliterals literal hliteral name sort term hterm u hu

/-- What was read has lexical names, if the literals do. -/
theorem lexicalNames_of_parse (hliterals : ∀ literal ∈ literals, literal.Closed)
    (h : parse text literals = .ok specification) : specification.LexicalNames := by
  obtain ⟨equations, hspells, -, -⟩ := parse_eq_ok_iff.mp h
  obtain ⟨hname, hsorts, hoperations, -⟩ := wellFormed_lexemes hspells
  refine ⟨hname, lexical_of_sortLexemes hsorts, ?_, ?_⟩
  · intro operation hoperation
    exact Operation.lexicalNames_of_wellFormed (hoperations operation hoperation)
  · intro u hu
    rcases named_or_inLiteral_of_parse h hu with hnamed | hliteral
    · exact ⟨hnamed.name, hnamed.sort⟩
    · exact (closed_of_inLiteral hliterals hliteral).1

/-- What was read is well formed, up to what stands in literals. -/
theorem wellFormed_iff_of_parse (h : parse text literals = .ok specification) :
    specification.WellFormed ↔ ∀ u, specification.Contains u →
      (specification.scope literals).InLiteral u → specification.toSignature.Allows u := by
  constructor
  · intro hformed u hu _
    exact hformed.allows u hu
  · intro hliteral
    obtain ⟨-, -, hsignature, -⟩ := parse_eq_ok_iff.mp h
    refine ⟨hsignature, fun u hu => ?_⟩
    rcases named_or_inLiteral_of_parse h hu with hnamed | hin
    · exact hnamed.allowed _ rfl
    · exact hliteral u hu hin

theorem wellFormed_of_parse_nil (h : parse text [] = .ok specification) :
    specification.WellFormed :=
  (wellFormed_iff_of_parse h).mpr fun u _ hin => absurd hin (not_inLiteral_nil u)

/-- Names are lexical, the parts are accepted, and no variable of the own sort
    is named as a constant is. That patterns are applications is part of every
    rule. -/
structure Writable (specification : Specification) : Prop where
  lexical : specification.LexicalNames
  accepted : ∃ built, build specification.name specification.dependencies
    specification.operations specification.rules = .ok built
  unambiguous : ∀ u, specification.Contains u → u.isVariable = true →
    u.sort = specification.name → ∀ operation ∈ specification.operations,
      operation.name = u.name → operation.arity ≠ 0

/-- A variable that was read is not named as a constant is. -/
theorem writable_of_parse (hliterals : ∀ literal ∈ literals, literal.Closed)
    (h : parse text literals = .ok specification) (hformed : specification.WellFormed) :
    specification.Writable := by
  refine ⟨lexicalNames_of_parse hliterals h, (exists_build_iff specification).mpr hformed, ?_⟩
  intro u hu hvariable hsort operation hoperation hname harity
  rcases named_or_inLiteral_of_parse h hu with hnamed | hin
  · -- the name is that of a declared constant
    have hterm := hnamed.bare hvariable
    have hconstant : specification.toSignature.hasConstant u.name = true :=
      (Signature.hasConstant_iff hformed.signature.distinct).mpr
        ⟨operation, hoperation, hname, harity⟩
    cases hread : Literal.read? (specification.scope literals).literals u.name u.sort with
    | some literal =>
      -- a literal is no variable
      rw [Scope.nameTerm_of_literal hread] at hterm
      obtain ⟨accepted, haccepted, hliteral⟩ := List.exists_of_findSome?_eq_some hread
      have hclosed := hliterals accepted haccepted _ _ _ hliteral literal (.refl _)
      rw [hterm, hvariable] at hclosed
      exact Bool.noConfusion hclosed.2
    | none =>
      -- the name would have been read as the constant
      rw [Scope.nameTerm_of_signature rfl hread, if_pos ⟨hsort, hconstant⟩] at hterm
      rw [← hterm] at hvariable
      simp [Term.constant, Term.isVariable] at hvariable
  · -- no variable stands in a literal
    have hclosed := closed_of_inLiteral hliterals hin
    rw [hvariable] at hclosed
    exact Bool.noConfusion hclosed.2

/-! ## What is writable is read back -/

/-- A variable of a writable specification is read as one. -/
theorem nameTerm_of_writable (h : specification.Writable) {u : Term}
    (hu : specification.Contains u) (hvariable : u.isVariable = true) :
    (specification.scope []).nameTerm u.name u.sort = u := by
  have hformed := (exists_build_iff specification).mp h.accepted
  have hnot : ¬ (u.sort = specification.name ∧
      specification.toSignature.hasConstant u.name = true) := by
    intro hboth
    obtain ⟨hsort, hconstant⟩ := hboth
    obtain ⟨operation, hoperation, hname, harity⟩ :=
      (Signature.hasConstant_iff hformed.signature.distinct).mp hconstant
    exact h.unambiguous u hu hvariable hsort operation hoperation hname harity
  cases u with
  | app => simp [Term.isVariable] at hvariable
  | var name sort =>
    rw [Scope.nameTerm_of_signature rfl rfl]
    exact if_neg hnot

/-- A term of a writable specification is read from its phrase. -/
theorem reads_phrase (h : specification.Writable) {term : Term}
    (hterm : ∀ u : Term, u.Subterm term → specification.Contains u) :
    (specification.scope []).Admits (term.phrase (some specification.name)) ∧
      (specification.scope []).reading (term.phrase (some specification.name)) = term := by
  have hformed := (exists_build_iff specification).mp h.accepted
  have homitted : ∀ sort ∈ some specification.name,
      sort = (specification.scope []).defaultSort := by
    intro sort hsort
    cases hsort
    rfl
  constructor
  · refine Scope.admits_phrase homitted (scope_distinct hformed.signature) ?_ ?_
    · intro signature hsignature u hu
      cases hsignature
      exact hformed.allows u (hterm u hu)
    · intro u _ _
      exact scope_admitsName u.name u.sort
  · apply Scope.reading_phrase homitted
    intro u hu hvariable
    exact nameTerm_of_writable h (hterm u hu) hvariable

/-- A rule of a writable specification is read from its equation. -/
theorem readsRule_equation (h : specification.Writable) {rule : Rule}
    (hrule : rule ∈ specification.rules) :
    (specification.scope []).ReadsRule (rule.equation specification.name) rule := by
  have hpattern := reads_phrase h fun u hu => ⟨rule, hrule, .inl hu⟩
  have htemplate := reads_phrase h fun u hu => ⟨rule, hrule, .inr hu⟩
  exact ⟨hpattern.1, htemplate.1, hpattern.2, htemplate.2⟩

/-- A writable specification is read back from its text. -/
theorem parse_of_writable (h : specification.Writable) :
    parse specification.text [] = .ok specification := by
  refine parse_eq_ok_iff.mpr ⟨specification.rules.map (Rule.equation specification.name),
    spells_text h.lexical, ((exists_build_iff specification).mp h.accepted).signature, ?_⟩
  rw [List.forall₂_map_left_iff, List.forall₂_same]
  exact fun rule hrule => readsRule_equation h hrule

/-- Texts without literals are read as the writable specifications, and each of
    these is read back from its own text. -/
theorem parse_text_inverse (specification : Specification) :
    (∀ text, parse text [] = .ok specification → specification.Writable) ∧
      (specification.Writable → parse specification.text [] = .ok specification) ∧
      ∀ text, parse text [] = .ok specification →
        parse specification.text [] = .ok specification ∧
          (parse specification.text []).map Specification.text = .ok specification.text := by
  have hwritable : ∀ text, parse text [] = .ok specification → specification.Writable := by
    intro text h
    exact writable_of_parse (by simp) h (wellFormed_of_parse_nil h)
  refine ⟨hwritable, parse_of_writable, fun text h => ?_⟩
  have hagain := parse_of_writable (hwritable text h)
  exact ⟨hagain, by rw [hagain]; rfl⟩

/-- At most one number: rules that name the constant and use both sorts. -/
def choice : Specification where
  name := "Choice"
  dependencies := [numberSort]
  operations := [⟨"none", [], "Choice"⟩, ⟨"pick", ["Choice", numberSort], "Choice"⟩]
  rules :=
    [⟨.app "pick" "Choice" [.constant "none" "Choice", .var "X" numberSort],
        .constant "none" "Choice", rfl⟩,
      ⟨.app "pick" "Choice" [.var "X" "Choice", .ofCount 0], .var "X" "Choice", rfl⟩]

/-- The name `none` is read as the constant and written as `none()`, and both
    variables `X` keep their sorts. -/
theorem choice_round_trips :
    parse ("type: Choice sorts: Number operations: none() -> Choice " ++
      "pick(Choice, Number) -> Choice axioms: pick(none, Number:X) = none " ++
      "pick(X, Number:zero()) = X") [] = .ok choice ∧ choice.Writable ∧
      parse choice.text [] = .ok choice := by
  have hparse : parse ("type: Choice sorts: Number operations: none() -> Choice " ++
      "pick(Choice, Number) -> Choice axioms: pick(none, Number:X) = none " ++
      "pick(X, Number:zero()) = X") [] = .ok choice := by cbv
  obtain ⟨hwritable, hback, -⟩ := parse_text_inverse choice
  exact ⟨hparse, hwritable _ hparse, hback (hwritable _ hparse)⟩

end Specification

end Equational
