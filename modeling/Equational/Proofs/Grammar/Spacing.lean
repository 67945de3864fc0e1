import Equational.Proofs.Grammar.Specification
import Equational.Proofs.Grammar.Statement
import Equational.Proofs.Token.Spacing

/-! # Reading does not depend on spacing

    The grammar is one of lexemes. Where they stand in the text decides nothing:
    it is only told when something is wrong. So two readers that are handed the
    same lexemes at different places **agree**: both give the same, and leave the
    same lexemes, or both fail, with errors that differ in places alone.

    Agreement is kept when one reader is put behind another, so it goes through
    the grammar rule by rule. Together with the scanner, which gives the same
    lexemes however they are spaced, it makes blanks mean nothing to what is read
    from a text.
-/

namespace Equational

/-! ## Agreement -/

/-- The error with every place it tells moved to the start of the text. -/
def Error.placeless : Error → Error
  | .lexical (.tooManyQualifiers word _) => .lexical (.tooManyQualifiers word ⟨0, 0⟩)
  | .lexical (.emptyQualifier word _) => .lexical (.emptyQualifier word ⟨0, 0⟩)
  | .grammar (.unexpected expected found) =>
    .grammar (.unexpected expected { found with span := ⟨0, 0⟩ })
  | .signature (.undeclaredSort sort name span) =>
    .signature (.undeclaredSort sort name (span.map fun _ => ⟨0, 0⟩))
  | error => error

/-- Both computations succeed, with results that are the same in some sense, or
    both fail, with errors that are the same apart from places. -/
inductive Agree {α β : Type} (same : α → β → Prop) : Except Error α → Except Error β → Prop where
  | ok {value : α} {other : β} : same value other → Agree same (.ok value) (.ok other)
  | error {error other : Error} :
      error.placeless = other.placeless → Agree same (.error error) (.error other)

section Agree

variable {α β γ δ : Type} {same : α → β → Prop} {next : γ → δ → Prop}

theorem Agree.refl (result : Except Error α) : Agree Eq result result := by
  cases result with
  | ok value => exact .ok rfl
  | error error => exact .error rfl

/-- Computations in turn agree if each agrees on what it is handed. -/
theorem Agree.bind {first : Except Error α} {second : Except Error β}
    {f : α → Except Error γ} {g : β → Except Error δ} (h : Agree same first second)
    (hnext : ∀ value other, same value other → Agree next (f value) (g other)) :
    Agree next (first >>= f) (second >>= g) := by
  cases h with
  | ok hsame => exact hnext _ _ hsame
  | error herror => exact .error herror

/-- A token is refused by what it says. -/
theorem agree_unexpected (expected : Expected) {token other : Token}
    (h : token.lexeme = other.lexeme) :
    Agree same (.error (.grammar (.unexpected expected token)))
      (.error (.grammar (.unexpected expected other))) := by
  refine .error ?_
  rw [Error.placeless, Error.placeless, h]

end Agree

/-! ## The same lexemes -/

/-- The tokens have the same lexemes in the same order, wherever they stand. -/
abbrev SameLexemes : List Token → List Token → Prop :=
  List.Forall₂ fun token other => token.lexeme = other.lexeme

namespace SameLexemes

variable {tokens others : List Token}

theorem of_map_eq (h : tokens.map Token.lexeme = others.map Token.lexeme) :
    SameLexemes tokens others := by
  rw [← List.forall₂_eq_eq_eq, List.forall₂_map_left_iff, List.forall₂_map_right_iff] at h
  exact h

theorem symm (h : SameLexemes tokens others) : SameLexemes others tokens :=
  h.flip.imp fun _ _ hlexeme => hlexeme.symm

theorem exists_of_cons {lexeme : Lexeme} {span : Span}
    (h : SameLexemes (⟨lexeme, span⟩ :: tokens) others) :
    ∃ span' rest, others = ⟨lexeme, span'⟩ :: rest ∧ SameLexemes tokens rest := by
  obtain ⟨⟨lexeme', span'⟩, rest, hlexeme, hrest, rfl⟩ := List.forall₂_cons_left_iff.mp h
  obtain rfl : lexeme = lexeme' := hlexeme
  exact ⟨span', rest, rfl, hrest⟩

/-- Where there is a token, there is one among the same lexemes. -/
theorem not_nil (h : SameLexemes tokens others) (hnot : tokens = [] → False) :
    others = [] → False := by
  intro heq
  subst heq
  cases h
  exact hnot rfl

/-- Where no token of a lexeme comes first, none does among the same lexemes. -/
theorem not_cons {lexeme : Lexeme} (h : SameLexemes tokens others)
    (hnot : ∀ span rest, tokens = ⟨lexeme, span⟩ :: rest → False) (span : Span)
    (rest : List Token) : others = ⟨lexeme, span⟩ :: rest → False := by
  intro heq
  subst heq
  obtain ⟨span', rest', rfl, -⟩ := h.symm.exists_of_cons
  exact hnot span' rest' rfl

end SameLexemes

/-- The same was read, and the same is left. -/
structure Parsed.Same {bound bound' : Nat} {α : Type} (parsed : Parsed bound α)
    (other : Parsed bound' α) : Prop where
  value : parsed.value = other.value
  rest : SameLexemes parsed.rest other.rest

/-! ## Readers of single tokens -/

section Single

variable {tokens others : List Token}

theorem Symbol.agree_expect (symbol : Symbol) (h : SameLexemes tokens others) :
    Agree Parsed.Same (symbol.expect tokens) (symbol.expect others) := by
  cases h with
  | nil => exact .error rfl
  | @cons token other rest rest' hlexeme hrest =>
    rw [expect, expect, ← hlexeme]
    split
    · exact .ok ⟨rfl, hrest⟩
    · exact agree_unexpected _ hlexeme

theorem Heading.agree_expect (heading : Heading) (h : SameLexemes tokens others) :
    Agree SameLexemes (heading.expect tokens) (heading.expect others) := by
  cases h with
  | nil => exact .error rfl
  | @cons token other rest rest' hlexeme hrest =>
    rw [expect, expect, ← hlexeme]
    split
    · exact .ok hrest
    · exact agree_unexpected _ hlexeme

theorem agree_readIdentifier (role : Expected) (h : SameLexemes tokens others) :
    Agree Parsed.Same (readIdentifier role tokens) (readIdentifier role others) := by
  rcases tokens with _ | ⟨⟨lexeme, span⟩, rest⟩
  · cases h
    exact .error rfl
  · obtain ⟨span', rest', rfl, hrest⟩ := h.exists_of_cons
    cases lexeme
    case identifier name => exact .ok ⟨rfl, hrest⟩
    all_goals exact agree_unexpected role rfl

theorem agree_expectEnd (h : SameLexemes tokens others) :
    Agree Eq (expectEnd tokens) (expectEnd others) := by
  cases h with
  | nil => exact .ok rfl
  | cons hlexeme _ => exact agree_unexpected _ hlexeme

end Single

/-! ## Terms -/

namespace Scope

variable (scope : Scope)

/-- A name is refused by itself, at whatever place. -/
theorem agree_resolve (lexeme : Lexeme) (span span' : Span) :
    Agree Eq (scope.resolve ⟨lexeme, span⟩) (scope.resolve ⟨lexeme, span'⟩) := by
  unfold resolve
  dsimp only
  split
  · exact .ok rfl
  · split
    · exact .ok rfl
    · exact .error rfl
  · exact agree_unexpected _ rfl

/-- So is a literal. -/
theorem agree_terminal (name sort : String) (span span' : Span) :
    Agree Eq (scope.terminal name sort span) (scope.terminal name sort span') := by
  unfold terminal
  split
  · exact .ok rfl
  · split
    · exact .ok rfl
    · exact .error rfl
  · exact .refl _
  · exact .ok rfl

/-- A term is read from lexemes. -/
theorem agree_readTerm {tokens others : List Token} (h : SameLexemes tokens others) :
    Agree Parsed.Same (scope.readTerm tokens) (scope.readTerm others) := by
  -- on the recursion of the three readers
  refine readTerm.induct
    (fun tokens => ∀ others, SameLexemes tokens others →
      Agree Parsed.Same (scope.readTerm tokens) (scope.readTerm others))
    (fun tokens => ∀ others, SameLexemes tokens others →
      Agree Parsed.Same (scope.readArguments tokens) (scope.readArguments others))
    (fun tokens => ∀ others, SameLexemes tokens others →
      Agree Parsed.Same (scope.readMoreArguments tokens) (scope.readMoreArguments others))
    ?none ?application ?name ?closed ?first ?close ?next tokens others h
  case none =>
    intro others h
    cases h
    rw [readTerm]
    exact .error rfl
  case application =>
    -- the name and the parenthesis are the same, so the arguments are read behind both
    intro token _ inside ih others h
    obtain ⟨span', behind, rfl, hbehind⟩ := h.exists_of_cons
    obtain ⟨_, inside', rfl, hinside⟩ := hbehind.exists_of_cons
    rw [readTerm, readTerm]
    refine (scope.agree_resolve token.lexeme token.span span').bind fun name _ hname => ?_
    subst hname
    refine (ih inside' hinside).bind fun arguments arguments' harguments => ?_
    rw [← harguments.value]
    refine (Agree.refl _).bind fun term _ hterm => ?_
    exact .ok ⟨hterm, harguments.rest⟩
  case name =>
    -- no parenthesis follows the name in either list
    intro token rest hbare others h
    obtain ⟨span', rest', rfl, hrest⟩ := h.exists_of_cons
    rw [readTerm.eq_3 scope token rest hbare, readTerm.eq_3 scope _ rest' (hrest.not_cons hbare)]
    refine (scope.agree_resolve token.lexeme token.span span').bind fun name _ hname => ?_
    subst hname
    refine (scope.agree_terminal name.1 name.2 token.span span').bind fun term _ hterm => ?_
    exact .ok ⟨hterm, hrest⟩
  case closed =>
    intro span rest others h
    obtain ⟨span', rest', rfl, hrest⟩ := h.exists_of_cons
    rw [readArguments, readArguments]
    exact .ok ⟨rfl, hrest⟩
  case first =>
    intro tokens hopen ihFirst ihMore others h
    rw [readArguments.eq_2 scope tokens hopen,
      readArguments.eq_2 scope others (h.not_cons hopen)]
    refine (ihFirst others h).bind fun argument argument' hargument => ?_
    refine (ihMore argument argument'.rest hargument.rest).bind fun more more' hmore => ?_
    exact .ok ⟨congrArg₂ List.cons hargument.value hmore.value, hmore.rest⟩
  case close =>
    intro span rest others h
    obtain ⟨span', rest', rfl, hrest⟩ := h.exists_of_cons
    rw [readMoreArguments, readMoreArguments]
    exact .ok ⟨rfl, hrest⟩
  case next =>
    intro tokens hopen ihNext ihMore others h
    rw [readMoreArguments.eq_2 scope tokens hopen,
      readMoreArguments.eq_2 scope others (h.not_cons hopen)]
    refine (Symbol.comma.agree_expect h).bind fun comma comma' hcomma => ?_
    refine (ihNext comma comma'.rest hcomma.rest).bind fun argument argument' hargument => ?_
    refine (ihMore comma argument argument'.rest hargument.rest).bind fun more more' hmore => ?_
    exact .ok ⟨congrArg₂ List.cons hargument.value hmore.value, hmore.rest⟩

end Scope

theorem Term.agree_ofTokens (scope : Scope) {tokens others : List Token}
    (h : SameLexemes tokens others) :
    Agree Eq (ofTokens scope tokens) (ofTokens scope others) := by
  refine (scope.agree_readTerm h).bind fun term term' hterm => ?_
  refine (agree_expectEnd hterm.rest).bind fun _ _ _ => ?_
  exact .ok hterm.value

/-! ## Statements -/

/-- Whether a name is assigned to is a matter of lexemes. -/
theorem SameLexemes.assigns {tokens others : List Token} (h : SameLexemes tokens others)
    (hassigns : Statement.Assigns tokens) : Statement.Assigns others := by
  obtain ⟨name, span, span', rest, rfl⟩ := hassigns
  obtain ⟨place, behind, rfl, hbehind⟩ := h.exists_of_cons
  obtain ⟨place', rest', rfl, -⟩ := hbehind.exists_of_cons
  exact ⟨name, place, place', rest', rfl⟩

namespace Statement

variable (scope : Scope)

theorem agree_read {tokens others : List Token} (h : SameLexemes tokens others) :
    Agree Parsed.Same (read scope tokens) (read scope others) := by
  by_cases hassigns : Assigns tokens
  · obtain ⟨name, span, span', rest, rfl⟩ := hassigns
    obtain ⟨_, behind, rfl, hbehind⟩ := h.exists_of_cons
    obtain ⟨_, rest', rfl, hrest⟩ := hbehind.exists_of_cons
    refine (scope.agree_readTerm hrest).bind fun term term' hterm => ?_
    exact .ok ⟨congrArg (Statement.assignment name) hterm.value, hterm.rest⟩
  · have hassigns' : ¬ Assigns others := fun hothers => hassigns (h.symm.assigns hothers)
    rw [read_of_not_assigns hassigns, read_of_not_assigns hassigns']
    refine (scope.agree_readTerm h).bind fun term term' hterm => ?_
    exact .ok ⟨congrArg Statement.expression hterm.value, hterm.rest⟩

theorem agree_readAll {tokens others : List Token} (h : SameLexemes tokens others) :
    Agree Eq (readAll scope tokens) (readAll scope others) := by
  induction tokens using readAll.induct generalizing others with
  | case1 =>
    cases h
    exact .refl _
  | case2 tokens hnil ih =>
    rw [readAll.eq_2 scope tokens hnil, readAll.eq_2 scope others (h.not_nil hnil)]
    refine (agree_read scope h).bind fun statement statement' hstatement => ?_
    refine (ih statement hstatement.rest).bind fun statements statements' hstatements => ?_
    exact .ok (congrArg₂ List.cons hstatement.value hstatements)

theorem agree_ofTokens {tokens others : List Token} (h : SameLexemes tokens others) :
    Agree Eq (ofTokens scope tokens) (ofTokens scope others) := by
  cases h with
  | nil => exact .refl _
  | cons hlexeme hrest => exact agree_readAll scope (.cons hlexeme hrest)

end Statement

/-! ## Specifications -/

theorem agree_readMoreSorts {tokens others : List Token} (h : SameLexemes tokens others) :
    Agree Parsed.Same (readMoreSorts tokens) (readMoreSorts others) := by
  induction tokens using readMoreSorts.induct generalizing others with
  | case1 span sort span' rest ih =>
    obtain ⟨_, behind, rfl, hbehind⟩ := h.exists_of_cons
    obtain ⟨_, rest', rfl, hrest⟩ := hbehind.exists_of_cons
    rw [readMoreSorts, readMoreSorts]
    refine (ih hrest).bind fun more more' hmore => ?_
    exact .ok ⟨congrArg (List.cons sort) hmore.value, hmore.rest⟩
  | case2 span token rest hother =>
    obtain ⟨_, behind, rfl, hbehind⟩ := h.exists_of_cons
    obtain ⟨lexeme, place⟩ := token
    obtain ⟨place', rest', rfl, -⟩ := hbehind.exists_of_cons
    -- the token behind the comma is no identifier at the other place either
    have hother' : ∀ sort span, (⟨lexeme, place'⟩ : Token) = ⟨.identifier sort, span⟩ → False := by
      intro sort span heq
      cases heq
      exact hother sort place rfl
    rw [readMoreSorts.eq_2 _ _ rest hother, readMoreSorts.eq_2 _ _ rest' hother']
    exact agree_unexpected _ rfl
  | case3 span =>
    obtain ⟨_, behind, rfl, hbehind⟩ := h.exists_of_cons
    cases hbehind
    exact .error rfl
  | case4 tokens h1 h2 h3 =>
    have hcomma : ∀ span rest, tokens = ⟨.symbol .comma, span⟩ :: rest → False := by
      intro span rest heq
      cases rest with
      | nil => exact h3 span heq
      | cons token rest => exact h2 span token rest heq
    rw [readMoreSorts_of_no_comma hcomma, readMoreSorts_of_no_comma (h.not_cons hcomma)]
    exact .ok ⟨rfl, h⟩

theorem agree_readSorts {tokens others : List Token} (h : SameLexemes tokens others) :
    Agree Parsed.Same (readSorts tokens) (readSorts others) := by
  by_cases hname : ∃ sort span rest, tokens = ⟨.identifier sort, span⟩ :: rest
  · obtain ⟨sort, span, rest, rfl⟩ := hname
    obtain ⟨_, rest', rfl, hrest⟩ := h.exists_of_cons
    refine (agree_readMoreSorts hrest).bind fun more more' hmore => ?_
    exact .ok ⟨congrArg (List.cons sort) hmore.value, hmore.rest⟩
  · have hnot : ∀ sort span rest, tokens = ⟨.identifier sort, span⟩ :: rest → False :=
      fun sort span rest heq => hname ⟨sort, span, rest, heq⟩
    rw [readSorts.eq_2 tokens hnot, readSorts.eq_2 others fun sort => h.not_cons (hnot sort)]
    exact .ok ⟨rfl, h⟩

theorem agree_readOperation {tokens others : List Token} (h : SameLexemes tokens others) :
    Agree Parsed.Same (readOperation tokens) (readOperation others) := by
  refine (agree_readIdentifier .operationName h).bind fun name name' hname => ?_
  refine (Symbol.lparen.agree_expect hname.rest).bind fun opening opening' hopening => ?_
  refine (agree_readSorts hopening.rest).bind fun arguments arguments' harguments => ?_
  refine (Symbol.rparen.agree_expect harguments.rest).bind fun closing closing' hclosing => ?_
  refine (Symbol.arrow.agree_expect hclosing.rest).bind fun arrow arrow' harrow => ?_
  refine (agree_readIdentifier .resultSort harrow.rest).bind fun result result' hresult => ?_
  refine .ok ⟨?_, hresult.rest⟩
  show (⟨name.value, arguments.value, result.value⟩ : Operation) = _
  rw [hname.value, harguments.value, hresult.value]

/-- The same was read in a section, and the same is left to the next one. -/
def SameSection {α : Type} (part other : List α × List Token) : Prop :=
  part.1 = other.1 ∧ SameLexemes part.2 other.2

theorem agree_readOperations {tokens others : List Token} (h : SameLexemes tokens others) :
    Agree SameSection (readOperations tokens) (readOperations others) := by
  induction tokens using readOperations.induct generalizing others with
  | case1 =>
    cases h
    rw [readOperations]
    exact .error rfl
  | case2 word span rest =>
    have hsame := h
    obtain ⟨span', rest', rfl, -⟩ := h.exists_of_cons
    rw [readOperations, readOperations]
    exact .ok ⟨rfl, hsame⟩
  | case3 tokens hnil hkeyword ih =>
    rw [readOperations.eq_3 tokens hnil hkeyword,
      readOperations.eq_3 others (h.not_nil hnil) fun word => h.not_cons (hkeyword word)]
    refine (agree_readOperation h).bind fun operation operation' hoperation => ?_
    refine (ih operation hoperation.rest).bind fun more more' hmore => ?_
    exact .ok ⟨congrArg₂ List.cons hoperation.value hmore.1, hmore.2⟩

namespace Scope

variable (scope : Scope)

theorem agree_readRule {tokens others : List Token} (h : SameLexemes tokens others) :
    Agree Parsed.Same (scope.readRule tokens) (scope.readRule others) := by
  refine (scope.agree_readTerm h).bind fun pattern pattern' hpattern => ?_
  refine (Symbol.equal.agree_expect hpattern.rest).bind fun equal equal' hequal => ?_
  refine (scope.agree_readTerm hequal.rest).bind fun template template' htemplate => ?_
  rw [← hpattern.value, ← htemplate.value]
  -- the two terms are the same, so they are a rule in both texts or in none
  cases Rule.ofTerms pattern.value template.value with
  | error error => exact .error rfl
  | ok rule => exact .ok ⟨rfl, htemplate.rest⟩

theorem agree_readRules {tokens others : List Token} (h : SameLexemes tokens others) :
    Agree SameSection (scope.readRules tokens) (scope.readRules others) := by
  induction tokens using readRules.induct generalizing others with
  | case1 =>
    cases h
    rw [readRules]
    exact .ok ⟨rfl, .nil⟩
  | case2 word span rest =>
    have hsame := h
    obtain ⟨span', rest', rfl, -⟩ := h.exists_of_cons
    rw [readRules, readRules]
    exact .ok ⟨rfl, hsame⟩
  | case3 tokens hnil hkeyword ih =>
    rw [readRules.eq_3 scope tokens hnil hkeyword,
      readRules.eq_3 scope others (h.not_nil hnil) fun word => h.not_cons (hkeyword word)]
    refine (scope.agree_readRule h).bind fun rule rule' hrule => ?_
    refine (ih rule hrule.rest).bind fun more more' hmore => ?_
    exact .ok ⟨congrArg₂ List.cons hrule.value hmore.1, hmore.2⟩

end Scope

theorem Specification.agree_ofTokens (literals : List Literal) {tokens others : List Token}
    (h : SameLexemes tokens others) :
    Agree Eq (ofTokens literals tokens) (ofTokens literals others) := by
  refine (Heading.type.agree_expect h).bind fun afterType afterType' htype => ?_
  refine (agree_readIdentifier .sortName htype).bind fun name name' hname => ?_
  refine (Heading.sorts.agree_expect hname.rest).bind fun afterSorts afterSorts' hsorts => ?_
  refine (agree_readSorts hsorts).bind fun dependencies dependencies' hdependencies => ?_
  refine (Heading.operations.agree_expect hdependencies.rest).bind fun _ _ hoperations => ?_
  refine (agree_readOperations hoperations).bind fun operations operations' hsection => ?_
  dsimp only
  rw [← hname.value, ← hdependencies.value, ← hsection.1]
  -- the same declarations make the same signature
  cases Signature.build name.value dependencies.value operations.1 with
  | error error => exact .error rfl
  | ok signature =>
    refine (Heading.axioms.agree_expect hsection.2).bind fun _ _ haxioms => ?_
    refine (Scope.agree_readRules _ haxioms).bind fun rules rules' hrules => ?_
    refine (agree_expectEnd hrules.2).bind fun _ _ _ => ?_
    exact .ok (congrArg (Specification.mk signature) hrules.1)

/-! ## Whole texts -/

/-- A reader that depends on lexemes only reads texts with the same ones alike. -/
theorem agree_parse {α : Type} {read : List Token → Except Error α}
    (hread : ∀ {tokens others}, SameLexemes tokens others → Agree Eq (read tokens) (read others))
    {text other : String} {tokens others : List Token} (h : Token.tokenize text = .ok tokens)
    (hother : Token.tokenize other = .ok others) (hsame : SameLexemes tokens others) :
    Agree Eq (readTokens text >>= read) (readTokens other >>= read) := by
  unfold readTokens
  rw [h, hother]
  exact hread hsame

/-- Blanks mean nothing, and the text of a lexeme ends by itself. Where a text is
    scanned, its lexemes may be written out with any blanks between them, before
    them and behind them: the new text is scanned into the same lexemes. So reading
    either text as a specification, as a term or as statements gives the same, or
    fails on both with errors that are the same apart from places. -/
theorem spacing_is_insignificant (text : String) (tokens : List Token)
    (scanned : Token.tokenize text = .ok tokens) (spacing : Spacing tokens.length)
    (defaultSort : String) (literals : List Literal) :
    let respaced := spacing.write (tokens.map Token.lexeme)
    (∃ others, Token.tokenize respaced = .ok others ∧
        others.map Token.lexeme = tokens.map Token.lexeme) ∧
      Agree Eq (Specification.parse text literals) (Specification.parse respaced literals) ∧
      Agree Eq (Term.parse text defaultSort literals)
        (Term.parse respaced defaultSort literals) ∧
      Agree Eq (Statement.parse text defaultSort literals)
        (Statement.parse respaced defaultSort literals) := by
  intro respaced
  obtain ⟨others, hothers, hlexemes⟩ := spacing.tokenize_write scanned
  have hsame : SameLexemes tokens others := .of_map_eq hlexemes.symm
  refine ⟨⟨others, hothers, hlexemes⟩, ?_, ?_, ?_⟩
  · exact agree_parse (Specification.agree_ofTokens literals) scanned hothers hsame
  · exact agree_parse (Term.agree_ofTokens _) scanned hothers hsame
  · exact agree_parse (Statement.agree_ofTokens _) scanned hothers hsame

/-- In `a-->b=x:` the first `-` belongs to the word and the second one to the
    arrow. Written apart they still do, and the arrow is refused there as well. -/
theorem arrow_refused_at_any_place :
    (∃ tokens, Token.tokenize "a-\t->\nb  = x:" = .ok tokens ∧
      tokens.map Token.lexeme = [.identifier "a-", .symbol .arrow, .identifier "b",
        .symbol .equal, .keyword "x:"]) ∧
      ∃ error, Statement.parse "a-\t->\nb  = x:" "s" [] = .error error ∧
        error.placeless = .grammar (.unexpected .identifier ⟨.symbol .arrow, ⟨0, 0⟩⟩) := by
  have hscanned : Token.tokenize "a-->b=x:" = .ok
      [⟨.identifier "a-", ⟨0, 2⟩⟩, ⟨.symbol .arrow, ⟨2, 4⟩⟩, ⟨.identifier "b", ⟨4, 5⟩⟩,
        ⟨.symbol .equal, ⟨5, 6⟩⟩, ⟨.keyword "x:", ⟨6, 8⟩⟩] := by cbv
  have hparse : Statement.parse "a-->b=x:" "s" [] =
      .error (.grammar (.unexpected .identifier ⟨.symbol .arrow, ⟨2, 4⟩⟩)) := by cbv
  let spacing : Spacing 5 :=
    { lead := ""
      gaps := ["\t", "\n", "  ", " ", ""]
      length_gaps := rfl
      blank_lead := by simp [Blank]
      blank_gaps := by simp [Blank, isBlank]
      apart := by simp }
  obtain ⟨hlexemes, -, -, hagree⟩ :=
    spacing_is_insignificant "a-->b=x:" _ hscanned spacing "s" []
  refine ⟨hlexemes, ?_⟩
  rw [hparse] at hagree
  generalize hother : Statement.parse _ "s" [] = other at hagree
  cases hagree with
  | @error _ error herror => exact ⟨error, hother, herror.symm⟩

end Equational
