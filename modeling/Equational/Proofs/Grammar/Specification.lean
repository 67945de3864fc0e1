import Equational.Proofs.Grammar.Phrase
import Equational.Proofs.Specification.Validation
import Equational.Specification.Parser

/-! # Specifications as they are written

    A specification is written with its name, its sorts, its operations and the
    two sides of its rules; the sides are phrases. `ofTokens_eq_ok_iff` says
    which tokens make up a specification: those that it is written with, when
    its signature is well formed and admits the phrases.

    Nothing separates the operations from one another, nor the rules. An
    operation ends with its result sort, and a template ends where the name at
    the head of the next pattern stands.
-/

namespace Equational

open Parsed (Gives)

/-! ## Sorts -/

/-- Sorts, each with the comma before it. -/
def moreSortLexemes : List String → List Lexeme
  | [] => []
  | sort :: sorts => .symbol .comma :: .identifier sort :: moreSortLexemes sorts

/-- A list of sorts, as it is written. -/
def sortLexemes : List String → List Lexeme
  | [] => []
  | sort :: sorts => .identifier sort :: moreSortLexemes sorts

theorem written_of_readMoreSorts (tokens : List Token) :
    ∀ sorts rest, Gives (readMoreSorts tokens) sorts rest →
      Written (moreSortLexemes sorts) tokens rest := by
  induction tokens using readMoreSorts.induct with
  | case1 span sort span' more ih =>
    intro sorts rest h
    rw [readMoreSorts] at h
    obtain ⟨parsed, hmore, h⟩ := Parsed.gives_bind_iff.mp h
    obtain ⟨rfl, rfl⟩ := Parsed.gives_ok_iff.mp h
    exact ⟨span, _, rfl, span', more, rfl, ih _ _ hmore⟩
  | case2 span token tail hother =>
    intro sorts rest h
    rw [readMoreSorts.eq_2 span token tail (fun sort span h => hother sort span h)] at h
    exact absurd h Parsed.not_gives_error
  | case3 span =>
    intro sorts rest h
    rw [readMoreSorts] at h
    exact absurd h Parsed.not_gives_error
  | case4 tokens h1 h2 h3 =>
    intro sorts rest h
    rw [readMoreSorts.eq_4 tokens h1 h2 h3] at h
    obtain ⟨rfl, rfl⟩ := Parsed.gives_ok_iff.mp h
    exact written_nil.mpr rfl

/-- What begins with no comma is not read as further sorts. -/
theorem readMoreSorts_of_no_comma {tokens : List Token}
    (h : ∀ span rest, tokens = ⟨.symbol .comma, span⟩ :: rest → False) :
    readMoreSorts tokens = .ok ⟨[], tokens, Parsed.none_taken tokens⟩ :=
  readMoreSorts.eq_4 tokens (fun _ _ _ _ heq => h _ _ heq) (fun _ _ _ heq => h _ _ heq)
    fun _ heq => h _ _ heq

theorem readMoreSorts_of_written {sorts : List String} {tokens rest : List Token}
    (h : Written (moreSortLexemes sorts) tokens rest)
    (hcomma : ¬ StartsWith (.symbol .comma) rest) :
    Gives (readMoreSorts tokens) sorts rest := by
  induction sorts generalizing tokens with
  | nil =>
    obtain rfl := written_nil.mp h
    rw [readMoreSorts_of_no_comma fun span more h => hcomma ⟨span, more, h⟩]
    exact Parsed.gives_ok_iff.mpr ⟨rfl, rfl⟩
  | cons sort sorts ih =>
    obtain ⟨span, more, rfl, span', behind, rfl, hsorts⟩ := h
    rw [readMoreSorts]
    exact Parsed.gives_bind (ih hsorts) fun _ => Parsed.gives_ok_iff.mpr ⟨rfl, rfl⟩

theorem written_of_readSorts {sorts : List String} {tokens rest : List Token}
    (h : Gives (readSorts tokens) sorts rest) : Written (sortLexemes sorts) tokens rest := by
  unfold readSorts at h
  split at h
  · rename_i sort span more
    obtain ⟨parsed, hmore, h⟩ := Parsed.gives_bind_iff.mp h
    obtain ⟨rfl, rfl⟩ := Parsed.gives_ok_iff.mp h
    exact ⟨span, more, rfl, written_of_readMoreSorts _ _ _ hmore⟩
  · obtain ⟨rfl, rfl⟩ := Parsed.gives_ok_iff.mp h
    exact written_nil.mpr rfl

/-- Sorts are read up to something that is neither a comma nor an identifier. -/
theorem readSorts_of_written {sorts : List String} {tokens rest : List Token}
    (h : Written (sortLexemes sorts) tokens rest) (hcomma : ¬ StartsWith (.symbol .comma) rest)
    (hname : ∀ name, ¬ StartsWith (.identifier name) rest) :
    Gives (readSorts tokens) sorts rest := by
  cases sorts with
  | nil =>
    obtain rfl := written_nil.mp h
    rw [readSorts.eq_2 tokens (fun name span _ h => hname name ⟨span, _, h⟩)]
    exact Parsed.gives_ok_iff.mpr ⟨rfl, rfl⟩
  | cons sort sorts =>
    obtain ⟨span, more, rfl, hsorts⟩ := h
    rw [readSorts]
    exact Parsed.gives_bind (readMoreSorts_of_written hsorts hcomma) fun _ =>
      Parsed.gives_ok_iff.mpr ⟨rfl, rfl⟩

/-! ## Operations -/

/-- A declaration, as it is written. -/
def Operation.lexemes (operation : Operation) : List Lexeme :=
  .identifier operation.name :: .symbol .lparen ::
    (sortLexemes operation.argumentSorts ++
      [.symbol .rparen, .symbol .arrow, .identifier operation.resultSort])

theorem readOperation_gives_iff {tokens rest : List Token} {operation : Operation} :
    Gives (readOperation tokens) operation rest ↔ Written operation.lexemes tokens rest := by
  constructor
  · intro h
    rw [readOperation] at h
    obtain ⟨name, hname, h⟩ := Parsed.gives_bind_iff.mp h
    obtain ⟨opening, hopening, h⟩ := Parsed.gives_bind_iff.mp h
    obtain ⟨arguments, harguments, h⟩ := Parsed.gives_bind_iff.mp h
    obtain ⟨closing, hclosing, h⟩ := Parsed.gives_bind_iff.mp h
    obtain ⟨arrow, harrow, h⟩ := Parsed.gives_bind_iff.mp h
    obtain ⟨result, hresult, h⟩ := Parsed.gives_bind_iff.mp h
    obtain ⟨rfl, rfl⟩ := Parsed.gives_ok_iff.mp h
    -- what each reader took, in the order of the text
    obtain ⟨span₁, htokens⟩ := written_singleton.mp (readIdentifier_gives_iff.mp hname)
    obtain ⟨span₂, hnameRest⟩ := written_singleton.mp (Symbol.expect_gives_iff.mp hopening)
    obtain ⟨span₃, hclosed⟩ := written_singleton.mp (Symbol.expect_gives_iff.mp hclosing)
    obtain ⟨span₄, harrowed⟩ := written_singleton.mp (Symbol.expect_gives_iff.mp harrow)
    refine ⟨span₁, _, htokens, span₂, _, hnameRest, ?_⟩
    refine written_append.mpr ⟨arguments.rest, written_of_readSorts harguments, ?_⟩
    exact ⟨span₃, _, hclosed, span₄, _, harrowed, readIdentifier_gives_iff.mp hresult⟩
  · intro h
    obtain ⟨span₁, more, rfl, span₂, inside, rfl, h⟩ := h
    obtain ⟨behind, hsorts, h⟩ := written_append.mp h
    -- the closing parenthesis ends the sorts
    have hcomma := not_startsWith_of_written h (.symbol .comma) (by simp)
    have hname := fun name => not_startsWith_of_written h (.identifier name) (by simp)
    obtain ⟨span₃, more, rfl, span₄, more', rfl, hresult⟩ := h
    rw [readOperation]
    refine Parsed.gives_bind (readIdentifier_gives_iff.mpr (written_singleton.mpr ⟨span₁, rfl⟩))
      fun _ => ?_
    refine Parsed.gives_bind (Symbol.expect_gives_iff.mpr (written_singleton.mpr ⟨span₂, rfl⟩))
      fun _ => ?_
    refine Parsed.gives_bind (readSorts_of_written hsorts hcomma hname) fun _ => ?_
    refine Parsed.gives_bind (Symbol.expect_gives_iff.mpr (written_singleton.mpr ⟨span₃, rfl⟩))
      fun _ => ?_
    refine Parsed.gives_bind (Symbol.expect_gives_iff.mpr (written_singleton.mpr ⟨span₄, rfl⟩))
      fun _ => ?_
    refine Parsed.gives_bind (readIdentifier_gives_iff.mpr hresult) fun _ => ?_
    exact Parsed.gives_ok_iff.mpr ⟨rfl, rfl⟩

/-- Some keyword comes next. -/
def StartsWithKeyword (tokens : List Token) : Prop :=
  ∃ word, StartsWith (.keyword word) tokens

theorem readOperations_of_keyword {tokens : List Token} (h : StartsWithKeyword tokens) :
    readOperations tokens = .ok ([], tokens) := by
  obtain ⟨word, span, rest, rfl⟩ := h
  rw [readOperations]

theorem readOperations_of_written {operations : List Operation} {tokens rest : List Token}
    (h : Written (operations.flatMap Operation.lexemes) tokens rest)
    (hrest : StartsWithKeyword rest) : readOperations tokens = .ok (operations, rest) := by
  induction operations generalizing tokens with
  | nil =>
    obtain rfl := written_nil.mp h
    exact readOperations_of_keyword hrest
  | cons operation operations ih =>
    rw [List.flatMap_cons] at h
    obtain ⟨middle, hoperation, hoperations⟩ := written_append.mp h
    -- an operation starts with its name, which is no keyword
    obtain ⟨span, more, htokens, -⟩ := written_cons.mp hoperation
    obtain ⟨_, hread⟩ := readOperation_gives_iff.mpr hoperation
    rw [readOperations.eq_3 tokens (by simp [htokens]) (by simp [htokens])]
    exact bind_eq_ok_iff.mpr ⟨_, hread, bind_eq_ok_iff.mpr ⟨_, ih hoperations, rfl⟩⟩

/-- Declarations are read where they are written, up to a keyword. -/
theorem readOperations_eq_ok_iff {tokens rest : List Token} {operations : List Operation} :
    readOperations tokens = .ok (operations, rest) ↔
      Written (operations.flatMap Operation.lexemes) tokens rest ∧ StartsWithKeyword rest := by
  constructor
  · intro h
    induction tokens using readOperations.induct generalizing operations with
    | case1 => simp [readOperations] at h
    | case2 word span more =>
      rw [readOperations] at h
      cases h
      exact ⟨written_nil.mpr rfl, word, span, more, rfl⟩
    | case3 tokens hnil hkeyword ih =>
      rw [readOperations.eq_3 tokens hnil hkeyword] at h
      obtain ⟨operation, hoperation, h⟩ := bind_eq_ok_iff.mp h
      obtain ⟨⟨more, behind⟩, hmore, h⟩ := bind_eq_ok_iff.mp h
      cases h
      obtain ⟨hwritten, hrest⟩ := ih operation hmore
      refine ⟨?_, hrest⟩
      rw [List.flatMap_cons]
      exact written_append.mpr
        ⟨_, readOperation_gives_iff.mp (Parsed.gives_of_eq hoperation), hwritten⟩
  · intro h
    obtain ⟨h, hrest⟩ := h
    exact readOperations_of_written h hrest

/-! ## Rules -/

/-- The two sides of a rule, as they are written. -/
structure Equation where
  pattern : Phrase
  template : Phrase

def Equation.lexemes (equation : Equation) : List Lexeme :=
  equation.pattern.lexemes ++ .symbol .equal :: equation.template.lexemes

namespace Scope

variable {scope : Scope}

/-- The sides are admitted, and the rule is made of their readings. -/
structure ReadsRule (scope : Scope) (equation : Equation) (rule : Rule) : Prop where
  admitsPattern : scope.Admits equation.pattern
  admitsTemplate : scope.Admits equation.template
  pattern : scope.reading equation.pattern = rule.pattern
  template : scope.reading equation.template = rule.template

theorem readRule_gives_iff {tokens rest : List Token} {rule : Rule} :
    Gives (scope.readRule tokens) rule rest ↔
      ∃ equation, Written equation.lexemes tokens rest ∧ scope.ReadsRule equation rule ∧
        (equation.template.isName = true → ¬ StartsWith (.symbol .lparen) rest) := by
  constructor
  · intro h
    obtain ⟨pattern, hpattern, h⟩ := Parsed.gives_bind_iff.mp h
    obtain ⟨equal, hequal, h⟩ := Parsed.gives_bind_iff.mp h
    obtain ⟨template, htemplate, h⟩ := Parsed.gives_bind_iff.mp h
    obtain ⟨left, hleft, hadmitsLeft, hreadingLeft, -⟩ := readTerm_gives_iff.mp hpattern
    obtain ⟨right, hright, hadmitsRight, hreadingRight, hend⟩ := readTerm_gives_iff.mp htemplate
    cases hrule : Rule.ofTerms pattern.value template.value with
    | error error =>
      rw [hrule] at h
      exact absurd h Parsed.not_gives_error
    | ok made =>
      rw [hrule] at h
      obtain ⟨rfl, rfl⟩ := Parsed.gives_ok_iff.mp h
      obtain ⟨hpattern, htemplate⟩ := Rule.ofTerms_eq_ok_iff.mp hrule
      refine ⟨⟨left, right⟩, ?_, ⟨hadmitsLeft, hadmitsRight, ?_, ?_⟩, hend⟩
      · refine written_append.mpr ⟨pattern.rest, hleft, ?_⟩
        obtain ⟨span, hequal⟩ := written_singleton.mp (Symbol.expect_gives_iff.mp hequal)
        exact ⟨span, equal.rest, hequal, hright⟩
      · rw [hreadingLeft, hpattern]
      · rw [hreadingRight, htemplate]
  · intro h
    obtain ⟨⟨left, right⟩, hwritten, ⟨hadmitsLeft, hadmitsRight, hpattern, htemplate⟩, hend⟩ := h
    obtain ⟨middle, hleft, hwritten⟩ := written_append.mp hwritten
    -- the pattern ends at the equality sign, whatever it is
    have hopen := not_startsWith_of_written hwritten (.symbol .lparen) (by simp)
    obtain ⟨span, behind, rfl, hright⟩ := hwritten
    refine Parsed.gives_bind (readTerm_gives_iff.mpr ⟨left, hleft, hadmitsLeft, hpattern,
      fun _ => hopen⟩) fun _ => ?_
    refine Parsed.gives_bind (Symbol.expect_gives_iff.mpr (written_singleton.mpr ⟨span, rfl⟩))
      fun _ => ?_
    refine Parsed.gives_bind (readTerm_gives_iff.mpr ⟨right, hright, hadmitsRight, htemplate, hend⟩)
      fun _ => ?_
    have hrule : Rule.ofTerms rule.pattern rule.template = .ok rule :=
      Rule.ofTerms_eq_ok_iff.mpr ⟨rfl, rfl⟩
    simp only [hrule]
    exact Parsed.gives_ok_iff.mpr ⟨rfl, rfl⟩

/-- Rules end at the end of the text or at a keyword. -/
def EndsRules (tokens : List Token) : Prop :=
  tokens = [] ∨ StartsWithKeyword tokens

/-- No parenthesis follows a rule, whether it is the last one or not. -/
theorem not_startsWith_lparen_of_equations {equations : List Equation} {tokens rest : List Token}
    (h : Written (equations.flatMap Equation.lexemes) tokens rest) (hrest : EndsRules rest) :
    ¬ StartsWith (.symbol .lparen) tokens := by
  cases equations with
  | nil =>
    obtain rfl := written_nil.mp h
    rcases hrest with rfl | ⟨word, span, more, rfl⟩
    · exact not_startsWith_nil
    · simp [startsWith_cons]
  | cons equation equations =>
    rw [List.flatMap_cons, Equation.lexemes, List.append_assoc] at h
    exact Phrase.not_startsWith_symbol h .lparen

theorem readRules_of_written {equations : List Equation} {rules : List Rule}
    (hrules : List.Forall₂ scope.ReadsRule equations rules) {tokens rest : List Token}
    (h : Written (equations.flatMap Equation.lexemes) tokens rest) (hrest : EndsRules rest) :
    scope.readRules tokens = .ok (rules, rest) := by
  -- rule by rule, each up to the head of the next pattern
  induction hrules generalizing tokens with
  | nil =>
    obtain rfl := written_nil.mp h
    rcases hrest with rfl | ⟨word, span, more, rfl⟩
    · rw [readRules]
    · rw [readRules]
  | @cons equation rule equations rules hrule _ ih =>
    rw [List.flatMap_cons] at h
    obtain ⟨middle, hequation, hequations⟩ := written_append.mp h
    have hend := not_startsWith_lparen_of_equations hequations hrest
    obtain ⟨_, hread⟩ := readRule_gives_iff.mpr ⟨equation, hequation, hrule, fun _ => hend⟩
    -- a pattern starts with a name, so the rules do not end here
    obtain ⟨lexemes, hhead⟩ := equation.pattern.lexemes_eq_cons
    rw [Equation.lexemes, hhead, List.cons_append] at hequation
    obtain ⟨span, more, rfl, -⟩ := hequation
    have hkeyword : ∀ word span' rest', (⟨equation.pattern.head.lexeme, span⟩ : Token) :: more =
        ⟨.keyword word, span'⟩ :: rest' → False := by
      intro word span' rest' heq
      cases hlexeme : equation.pattern.head <;> simp [hlexeme, Head.lexeme] at heq
    rw [readRules.eq_3 scope _ (by simp) hkeyword]
    exact bind_eq_ok_iff.mpr ⟨_, hread, bind_eq_ok_iff.mpr ⟨_, ih hequations, rfl⟩⟩

/-- Rules are read where they are written. -/
theorem readRules_eq_ok_iff {tokens rest : List Token} {rules : List Rule} :
    scope.readRules tokens = .ok (rules, rest) ↔
      ∃ equations, Written (equations.flatMap Equation.lexemes) tokens rest ∧
        List.Forall₂ scope.ReadsRule equations rules ∧ EndsRules rest := by
  constructor
  · intro h
    induction tokens using readRules.induct generalizing rules with
    | case1 =>
      rw [readRules] at h
      cases h
      exact ⟨[], written_nil.mpr rfl, .nil, .inl rfl⟩
    | case2 word span more =>
      rw [readRules] at h
      cases h
      exact ⟨[], written_nil.mpr rfl, .nil, .inr ⟨word, span, more, rfl⟩⟩
    | case3 tokens hnil hkeyword ih =>
      rw [readRules.eq_3 scope tokens hnil hkeyword] at h
      obtain ⟨rule, hrule, h⟩ := bind_eq_ok_iff.mp h
      obtain ⟨⟨more, behind⟩, hmore, h⟩ := bind_eq_ok_iff.mp h
      cases h
      obtain ⟨equation, hequation, hreads, -⟩ := readRule_gives_iff.mp (Parsed.gives_of_eq hrule)
      obtain ⟨equations, hwritten, hall, hrest⟩ := ih rule hmore
      refine ⟨equation :: equations, ?_, .cons hreads hall, hrest⟩
      rw [List.flatMap_cons]
      exact written_append.mpr ⟨_, hequation, hwritten⟩
  · intro h
    obtain ⟨equations, hwritten, hall, hrest⟩ := h
    exact readRules_of_written hall hwritten hrest

end Scope

/-! ## Specifications -/

/-- The lexemes of a whole specification. -/
def specificationLexemes (name : String) (dependencies : List String)
    (operations : List Operation) (equations : List Equation) : List Lexeme :=
  .keyword Heading.type.word :: .identifier name :: .keyword Heading.sorts.word ::
    (sortLexemes dependencies ++
      (.keyword Heading.operations.word ::
        (operations.flatMap Operation.lexemes ++
          (.keyword Heading.axioms.word :: equations.flatMap Equation.lexemes))))

theorem Heading.expect_eq_ok_iff {heading : Heading} {tokens rest : List Token} :
    heading.expect tokens = .ok rest ↔
      ∃ span, tokens = ⟨.keyword heading.word, span⟩ :: rest := by
  cases tokens with
  | nil => simp [expect]
  | cons token tokens =>
    obtain ⟨lexeme, span⟩ := token
    by_cases h : lexeme = .keyword heading.word
    · simp [expect, h]
    · simp [expect, h]

namespace Specification

/-- The scope that the rules of a specification are read in. -/
def scope (specification : Specification) (literals : List Literal) : Scope :=
  ⟨specification.name, some specification.toSignature, literals⟩

theorem ofTokens_of_written {literals : List Literal} {specification : Specification}
    {equations : List Equation} {tokens : List Token}
    (h : Written (specificationLexemes specification.name specification.dependencies
      specification.operations equations) tokens [])
    (hformed : specification.toSignature.WellFormed)
    (hrules : List.Forall₂ (specification.scope literals).ReadsRule equations specification.rules) :
    ofTokens literals tokens = .ok specification := by
  obtain ⟨span₁, _, rfl, span₂, _, rfl, span₃, afterSorts, rfl, h⟩ := h
  obtain ⟨afterDependencies, hdependencies, h⟩ := written_append.mp h
  -- the next heading ends the sorts
  have hcomma := not_startsWith_of_written h (.symbol .comma) (by simp)
  have hname := fun name => not_startsWith_of_written h (.identifier name) (by simp)
  obtain ⟨span₄, afterOperations, rfl, h⟩ := h
  obtain ⟨afterSection, hoperations, span₅, afterAxioms, rfl, hequations⟩ := written_append.mp h
  obtain ⟨_, hsorts⟩ := readSorts_of_written hdependencies hcomma hname
  have hdeclarations := readOperations_of_written hoperations ⟨_, span₅, afterAxioms, rfl⟩
  have hbuild := Signature.build_eq_ok_iff.mpr ⟨rfl, hformed⟩
  have hread := Scope.readRules_of_written hrules hequations (.inl rfl)
  rw [ofTokens]
  refine bind_eq_ok_iff.mpr ⟨_, Heading.expect_eq_ok_iff.mpr ⟨span₁, rfl⟩, ?_⟩
  obtain ⟨_, hname⟩ := readIdentifier_gives_iff.mpr (written_singleton.mpr ⟨span₂, rfl⟩)
  refine bind_eq_ok_iff.mpr ⟨_, hname, ?_⟩
  refine bind_eq_ok_iff.mpr ⟨_, Heading.expect_eq_ok_iff.mpr ⟨span₃, rfl⟩, ?_⟩
  refine bind_eq_ok_iff.mpr ⟨_, hsorts, ?_⟩
  refine bind_eq_ok_iff.mpr ⟨_, Heading.expect_eq_ok_iff.mpr ⟨span₄, rfl⟩, ?_⟩
  refine bind_eq_ok_iff.mpr ⟨_, hdeclarations, ?_⟩
  simp only [hbuild]
  refine bind_eq_ok_iff.mpr ⟨_, Heading.expect_eq_ok_iff.mpr ⟨span₅, rfl⟩, ?_⟩
  exact bind_eq_ok_iff.mpr ⟨_, hread, rfl⟩

/-- The tokens of a specification are those that it is written with. -/
theorem ofTokens_eq_ok_iff {literals : List Literal} {specification : Specification}
    {tokens : List Token} :
    ofTokens literals tokens = .ok specification ↔
      ∃ equations, tokens.map Token.lexeme = specificationLexemes specification.name
          specification.dependencies specification.operations equations ∧
        specification.toSignature.WellFormed ∧
        List.Forall₂ (specification.scope literals).ReadsRule equations specification.rules := by
  constructor
  · intro h
    rw [ofTokens] at h
    obtain ⟨afterType, htype, h⟩ := bind_eq_ok_iff.mp h
    obtain ⟨name, hname, h⟩ := bind_eq_ok_iff.mp h
    obtain ⟨afterSorts, hsorts, h⟩ := bind_eq_ok_iff.mp h
    obtain ⟨dependencies, hdependencies, h⟩ := bind_eq_ok_iff.mp h
    obtain ⟨afterOperations, hheading, h⟩ := bind_eq_ok_iff.mp h
    obtain ⟨⟨operations, afterSection⟩, hoperations, h⟩ := bind_eq_ok_iff.mp h
    cases hbuild : Signature.build name.value dependencies.value operations with
    | error error => simp [hbuild] at h
    | ok signature =>
      simp only [hbuild] at h
      obtain ⟨afterAxioms, haxioms, h⟩ := bind_eq_ok_iff.mp h
      obtain ⟨⟨rules, rest⟩, hrules, h⟩ := bind_eq_ok_iff.mp h
      obtain ⟨hend, h⟩ := check_bind_eq_ok_iff.mp h
      cases h
      obtain rfl := expectEnd_eq_ok_iff.mp hend
      obtain ⟨rfl, hformed⟩ := Signature.build_eq_ok_iff.mp hbuild
      obtain ⟨equations, hequations, hall, -⟩ := Scope.readRules_eq_ok_iff.mp hrules
      refine ⟨equations, written_nil_right.mp ?_, hformed, hall⟩
      -- the headings with the lists between them
      obtain ⟨span₁, rfl⟩ := Heading.expect_eq_ok_iff.mp htype
      obtain ⟨span₂, hname⟩ := written_singleton.mp
        (readIdentifier_gives_iff.mp (Parsed.gives_of_eq hname))
      obtain ⟨span₃, hsorts⟩ := Heading.expect_eq_ok_iff.mp hsorts
      obtain ⟨span₄, hheading⟩ := Heading.expect_eq_ok_iff.mp hheading
      obtain ⟨span₅, rfl⟩ := Heading.expect_eq_ok_iff.mp haxioms
      refine ⟨span₁, _, rfl, span₂, _, hname, span₃, _, hsorts, ?_⟩
      refine written_append.mpr
        ⟨dependencies.rest, written_of_readSorts (Parsed.gives_of_eq hdependencies), ?_⟩
      refine ⟨span₄, _, hheading, ?_⟩
      exact written_append.mpr
        ⟨_, (readOperations_eq_ok_iff.mp hoperations).1, span₅, _, rfl, hequations⟩
  · intro h
    obtain ⟨equations, hlexemes, hformed, hall⟩ := h
    exact ofTokens_of_written (written_nil_right.mpr hlexemes) hformed hall

end Specification

end Equational
