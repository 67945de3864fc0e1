import Equational.Diagnostic
import Equational.Proofs.Except
import Equational.Proofs.Specification.Acceptance
import Equational.Proofs.Text.Lines
import Equational.Proofs.Token.Coverage
import Equational.Specification.Parser
import Equational.Statement

/-! # Where diagnostics point

    An editor marks the region that a diagnostic gives. It holds the text of the
    token, or of the malformed word, that the error is about.

    * The readers **keep to** the tokens they are given: an error is about one of
      these tokens, and what is left of them is handed on. So the token of an
      error is one that was scanned.
    * What was scanned stands in the text at its span, and holds no line feed.
    * The region of a span holds what stands there, if it is part of a line.
-/

namespace Equational

open String (utf8Len)

/-! ## Errors about tokens -/

/-- The error is about one of these tokens, unless it stands nowhere in a text. -/
inductive Error.About (tokens : List Token) : Error → Prop where
  | unexpected (expected : Expected) {found : Token} :
      found ∈ tokens → About tokens (.grammar (.unexpected expected found))
  | undeclaredSort (sort name : String) {token : Token} :
      token ∈ tokens → About tokens (.signature (.undeclaredSort sort name (some token.span)))
  | nowhere {error : Error} : error.span? = none → About tokens error

theorem Error.About.mono {tokens others : List Token} {error : Error} (h : error.About tokens)
    (hsubset : tokens ⊆ others) : error.About others := by
  cases h with
  | unexpected expected hfound => exact .unexpected expected (hsubset hfound)
  | undeclaredSort sort name htoken => exact .undeclaredSort sort name (hsubset htoken)
  | nowhere hspan => exact .nowhere hspan

/-- The reader keeps to these tokens: an error is about one of them, and the
    tokens that are left are some of them. -/
structure KeepsTo {α : Type} (tokens : List Token) (left : α → List Token)
    (result : Except Error α) : Prop where
  about : ∀ error, result = .error error → error.About tokens
  left_subset : ∀ value, result = .ok value → left value ⊆ tokens

section KeepsTo

variable {α β : Type} {tokens others : List Token} {left : α → List Token}
  {left' : β → List Token}

theorem keepsTo_ok {value : α} (h : left value ⊆ tokens) : KeepsTo tokens left (.ok value) := by
  refine ⟨nofun, fun other heq => ?_⟩
  cases heq
  exact h

theorem keepsTo_error {error : Error} (h : error.About tokens) :
    KeepsTo tokens left (.error error) := by
  refine ⟨fun other heq => ?_, nofun⟩
  cases heq
  exact h

/-- The end of a text has no span. -/
theorem keepsTo_endOfInput (expected : Expected) :
    KeepsTo tokens left (.error (.grammar (.endOfInput expected))) :=
  keepsTo_error (.nowhere rfl)

/-- The token that is refused is the next one. -/
theorem keepsTo_unexpected (expected : Expected) (token : Token) (rest : List Token) :
    KeepsTo (token :: rest) left (.error (.grammar (.unexpected expected token))) :=
  keepsTo_error (.unexpected expected List.mem_cons_self)

theorem KeepsTo.mono {result : Except Error α} (h : KeepsTo tokens left result)
    (hsubset : tokens ⊆ others) : KeepsTo others left result where
  about error herror := (h.about error herror).mono hsubset
  left_subset value hvalue := List.Subset.trans (h.left_subset value hvalue) hsubset

/-- Readers one after the other keep to the tokens if each keeps to those that it
    is handed. -/
theorem KeepsTo.bind {first : Except Error α} {next : α → Except Error β}
    (hfirst : KeepsTo tokens left first)
    (hnext : ∀ value, KeepsTo (left value) left' (next value)) :
    KeepsTo tokens left' (first >>= next) := by
  constructor
  · intro error h
    rcases bind_eq_error_iff.mp h with herror | ⟨value, hvalue, herror⟩
    · exact hfirst.about error herror
    · exact ((hnext value).about error herror).mono (hfirst.left_subset value hvalue)
  · intro result h
    obtain ⟨value, hvalue, hresult⟩ := bind_eq_ok_iff.mp h
    exact List.Subset.trans ((hnext value).left_subset result hresult)
      (hfirst.left_subset value hvalue)

end KeepsTo

/-! ## Readers of single tokens -/

theorem Symbol.keepsTo_expect (symbol : Symbol) (tokens : List Token) :
    KeepsTo tokens Parsed.rest (symbol.expect tokens) := by
  cases tokens with
  | nil => exact keepsTo_endOfInput _
  | cons token rest =>
    rw [expect]
    by_cases hsymbol : token.lexeme = .symbol symbol
    · rw [if_pos hsymbol]
      exact keepsTo_ok (List.subset_cons_self token rest)
    · rw [if_neg hsymbol]
      exact keepsTo_unexpected _ token rest

theorem Heading.keepsTo_expect (heading : Heading) (tokens : List Token) :
    KeepsTo tokens id (heading.expect tokens) := by
  cases tokens with
  | nil => exact keepsTo_endOfInput _
  | cons token rest =>
    rw [expect]
    by_cases hkeyword : token.lexeme = .keyword heading.word
    · rw [if_pos hkeyword]
      exact keepsTo_ok (List.subset_cons_self token rest)
    · rw [if_neg hkeyword]
      exact keepsTo_unexpected _ token rest

theorem keepsTo_readIdentifier (role : Expected) (tokens : List Token) :
    KeepsTo tokens Parsed.rest (readIdentifier role tokens) := by
  rcases tokens with _ | ⟨⟨_ | name | _ | _, span⟩, rest⟩
  case cons.identifier => exact keepsTo_ok (List.subset_cons_self _ rest)
  case nil => exact keepsTo_endOfInput _
  all_goals exact keepsTo_unexpected _ _ rest

theorem keepsTo_expectEnd (tokens : List Token) :
    KeepsTo tokens (fun _ => []) (expectEnd tokens) := by
  cases tokens with
  | nil => exact keepsTo_ok (List.nil_subset _)
  | cons token rest => exact keepsTo_unexpected _ token rest

/-! ## Terms -/

namespace Scope

variable (scope : Scope)

/-- A name is refused at its token. -/
theorem keepsTo_resolve (token : Token) (rest : List Token) :
    KeepsTo (token :: rest) (fun _ => token :: rest) (scope.resolve token) := by
  unfold resolve
  split
  · exact keepsTo_ok (List.Subset.refl _)
  · rename_i sort name _
    by_cases hknown : scope.signature?.all (·.knows sort) = true
    · rw [if_pos hknown]
      exact keepsTo_ok (List.Subset.refl _)
    · rw [if_neg hknown]
      exact keepsTo_error (.undeclaredSort sort name List.mem_cons_self)
  · exact keepsTo_unexpected _ token rest

/-- So is a literal. -/
theorem keepsTo_terminal (name sort : String) (token : Token) (rest : List Token) :
    KeepsTo (token :: rest) (fun _ => rest) (scope.terminal name sort token.span) := by
  have hok : ∀ term, KeepsTo (token :: rest) (fun _ => rest) (.ok term : Except Error Term) :=
    fun _ => keepsTo_ok (List.subset_cons_self token rest)
  unfold terminal
  split
  · exact hok _
  · rename_i literal signature _ _
    by_cases hknown : signature.knows literal.sort = true
    · rw [if_pos hknown]
      exact hok _
    · rw [if_neg hknown]
      exact keepsTo_error (.undeclaredSort literal.sort name List.mem_cons_self)
  · split <;> exact hok _
  · exact hok _

/-- The number of arguments is not wrong at any of the tokens. -/
theorem keepsTo_application (name sort : String) (arguments : List Term) (tokens : List Token) :
    KeepsTo tokens (fun _ => tokens) (scope.application name sort arguments) := by
  unfold application Signature.checkApplication
  split
  · exact keepsTo_ok (List.Subset.refl _)
  · split <;> rename_i hcheck
    · exact keepsTo_ok (List.Subset.refl _)
    · refine keepsTo_error (.nowhere ?_)
      split at hcheck
      · split at hcheck
        · cases hcheck
          rfl
        · split at hcheck <;> cases hcheck
          rfl
      · cases hcheck

theorem keepsTo_readTerm (tokens : List Token) :
    KeepsTo tokens Parsed.rest (scope.readTerm tokens) := by
  -- on the recursion of the three readers
  refine readTerm.induct
    (fun tokens => KeepsTo tokens Parsed.rest (scope.readTerm tokens))
    (fun tokens => KeepsTo tokens Parsed.rest (scope.readArguments tokens))
    (fun tokens => KeepsTo tokens Parsed.rest (scope.readMoreArguments tokens))
    ?_ ?_ ?_ ?_ ?_ ?_ ?_ tokens
  · -- no token
    rw [readTerm]
    exact keepsTo_endOfInput _
  · -- a name and an opening parenthesis
    intro token span inside ih
    rw [readTerm]
    refine (scope.keepsTo_resolve token _).bind fun ⟨name, sort⟩ => ?_
    have hinside : inside ⊆ token :: ⟨.symbol .lparen, span⟩ :: inside := by simp
    refine (ih.mono hinside).bind fun arguments => ?_
    refine (scope.keepsTo_application name sort arguments.value _).bind fun term => ?_
    exact keepsTo_ok (List.Subset.refl _)
  · -- a name that no parenthesis follows
    intro token rest hbare
    rw [readTerm.eq_3 scope token rest hbare]
    refine (scope.keepsTo_resolve token rest).bind fun ⟨name, sort⟩ => ?_
    refine (scope.keepsTo_terminal name sort token rest).bind fun term => ?_
    exact keepsTo_ok (List.Subset.refl _)
  · -- no arguments
    intro span rest
    rw [readArguments]
    exact keepsTo_ok (List.subset_cons_self _ rest)
  · -- the first argument
    intro tokens hopen ihFirst ihMore
    rw [readArguments.eq_2 scope tokens hopen]
    refine ihFirst.bind fun argument => ?_
    refine (ihMore argument).bind fun more => ?_
    exact keepsTo_ok (List.Subset.refl _)
  · -- the closing parenthesis
    intro span rest
    rw [readMoreArguments]
    exact keepsTo_ok (List.subset_cons_self _ rest)
  · -- a comma and one more argument
    intro tokens hopen ihNext ihMore
    rw [readMoreArguments.eq_2 scope tokens hopen]
    refine (Symbol.comma.keepsTo_expect tokens).bind fun comma => ?_
    refine (ihNext comma).bind fun argument => ?_
    refine (ihMore comma argument).bind fun more => ?_
    exact keepsTo_ok (List.Subset.refl _)

end Scope

theorem Term.keepsTo_ofTokens (scope : Scope) (tokens : List Token) :
    KeepsTo tokens (fun _ => []) (Term.ofTokens scope tokens) := by
  refine (scope.keepsTo_readTerm tokens).bind fun term => ?_
  refine (keepsTo_expectEnd term.rest).bind fun _ => ?_
  exact keepsTo_ok (List.nil_subset _)

/-! ## Statements -/

namespace Statement

theorem keepsTo_read (scope : Scope) (tokens : List Token) :
    KeepsTo tokens Parsed.rest (read scope tokens) := by
  unfold read
  split
  · rename_i name span span' inside
    have hinside : inside ⊆ ⟨.identifier name, span⟩ :: ⟨.symbol .equal, span'⟩ :: inside := by
      simp
    refine ((scope.keepsTo_readTerm inside).mono hinside).bind fun term => ?_
    exact keepsTo_ok (List.Subset.refl _)
  · refine (scope.keepsTo_readTerm _).bind fun term => ?_
    exact keepsTo_ok (List.Subset.refl _)

theorem keepsTo_readAll (scope : Scope) (tokens : List Token) :
    KeepsTo tokens (fun _ => []) (readAll scope tokens) := by
  induction tokens using readAll.induct with
  | case1 =>
    rw [readAll]
    exact keepsTo_ok (List.nil_subset _)
  | case2 tokens hnil ih =>
    rw [readAll.eq_2 scope tokens hnil]
    refine (keepsTo_read scope tokens).bind fun statement => ?_
    refine (ih statement).bind fun statements => ?_
    exact keepsTo_ok (List.nil_subset _)

theorem keepsTo_ofTokens (scope : Scope) (tokens : List Token) :
    KeepsTo tokens (fun _ => []) (ofTokens scope tokens) := by
  cases tokens with
  | nil => exact keepsTo_error (.nowhere rfl)
  | cons token rest => exact keepsTo_readAll scope (token :: rest)

end Statement

/-! ## Specifications -/

theorem keepsTo_readMoreSorts (tokens : List Token) :
    KeepsTo tokens Parsed.rest (readMoreSorts tokens) := by
  induction tokens using readMoreSorts.induct with
  | case1 span sort span' rest ih =>
    rw [readMoreSorts]
    have hrest : rest ⊆ ⟨.symbol .comma, span⟩ :: ⟨.identifier sort, span'⟩ :: rest := by simp
    refine (ih.mono hrest).bind fun more => ?_
    exact keepsTo_ok (List.Subset.refl _)
  | case2 span token rest hother =>
    rw [readMoreSorts.eq_2 span token rest hother]
    exact keepsTo_error (.unexpected _ (by simp))
  | case3 span =>
    rw [readMoreSorts]
    exact keepsTo_endOfInput _
  | case4 tokens h1 h2 h3 =>
    rw [readMoreSorts.eq_4 tokens h1 h2 h3]
    exact keepsTo_ok (List.Subset.refl _)

theorem keepsTo_readSorts (tokens : List Token) :
    KeepsTo tokens Parsed.rest (readSorts tokens) := by
  unfold readSorts
  split
  · rename_i sort span rest
    refine ((keepsTo_readMoreSorts rest).mono (List.subset_cons_self _ rest)).bind fun more => ?_
    exact keepsTo_ok (List.Subset.refl _)
  · exact keepsTo_ok (List.Subset.refl _)

theorem keepsTo_readOperation (tokens : List Token) :
    KeepsTo tokens Parsed.rest (readOperation tokens) := by
  refine (keepsTo_readIdentifier .operationName tokens).bind fun name => ?_
  refine (Symbol.lparen.keepsTo_expect name.rest).bind fun opening => ?_
  refine (keepsTo_readSorts opening.rest).bind fun arguments => ?_
  refine (Symbol.rparen.keepsTo_expect arguments.rest).bind fun closing => ?_
  refine (Symbol.arrow.keepsTo_expect closing.rest).bind fun arrow => ?_
  refine (keepsTo_readIdentifier .resultSort arrow.rest).bind fun result => ?_
  exact keepsTo_ok (List.Subset.refl _)

theorem keepsTo_readOperations (tokens : List Token) :
    KeepsTo tokens Prod.snd (readOperations tokens) := by
  induction tokens using readOperations.induct with
  | case1 =>
    rw [readOperations]
    exact keepsTo_endOfInput _
  | case2 word span rest =>
    rw [readOperations]
    exact keepsTo_ok (List.Subset.refl _)
  | case3 tokens hnil hkeyword ih =>
    rw [readOperations.eq_3 tokens hnil hkeyword]
    refine (keepsTo_readOperation tokens).bind fun operation => ?_
    refine (ih operation).bind fun ⟨operations, rest⟩ => ?_
    exact keepsTo_ok (List.Subset.refl _)

namespace Scope

variable (scope : Scope)

theorem keepsTo_readRule (tokens : List Token) :
    KeepsTo tokens Parsed.rest (scope.readRule tokens) := by
  refine (scope.keepsTo_readTerm tokens).bind fun pattern => ?_
  refine (Symbol.equal.keepsTo_expect pattern.rest).bind fun equal => ?_
  refine (scope.keepsTo_readTerm equal.rest).bind fun template => ?_
  -- a rule without an operation is not wrong at any of the tokens
  cases pattern.value with
  | var name sort => exact keepsTo_error (.nowhere rfl)
  | app operation sort arguments => exact keepsTo_ok (List.Subset.refl _)

theorem keepsTo_readRules (tokens : List Token) :
    KeepsTo tokens Prod.snd (scope.readRules tokens) := by
  induction tokens using readRules.induct with
  | case1 =>
    rw [readRules]
    exact keepsTo_ok (List.Subset.refl _)
  | case2 word span rest =>
    rw [readRules]
    exact keepsTo_ok (List.Subset.refl _)
  | case3 tokens hnil hkeyword ih =>
    rw [readRules.eq_3 scope tokens hnil hkeyword]
    refine (scope.keepsTo_readRule tokens).bind fun rule => ?_
    refine (ih rule).bind fun ⟨rules, rest⟩ => ?_
    exact keepsTo_ok (List.Subset.refl _)

end Scope

/-- A declaration is refused without a span, since it is refused behind all of
    them. -/
theorem Signature.Offends.span? {signature : Signature} {operation : Operation}
    {error : SignatureError} (h : signature.Offends operation error) : error.span? = none := by
  cases h with
  | duplicate => rfl
  | argument => rfl
  | result => rfl

theorem Signature.span?_of_build {name : String} {dependencies : List String}
    {operations : List Operation} {error : SignatureError}
    (h : Signature.build name dependencies operations = .error error) : error.span? = none := by
  obtain ⟨_, _, _, -, -, hoffends⟩ := build_eq_error_iff.mp h
  exact hoffends.span?

theorem Specification.keepsTo_ofTokens (literals : List Literal) (tokens : List Token) :
    KeepsTo tokens (fun _ => []) (Specification.ofTokens literals tokens) := by
  refine (Heading.type.keepsTo_expect tokens).bind fun afterType => ?_
  refine (keepsTo_readIdentifier .sortName afterType).bind fun name => ?_
  refine (Heading.sorts.keepsTo_expect name.rest).bind fun afterSorts => ?_
  refine (keepsTo_readSorts afterSorts).bind fun dependencies => ?_
  refine (Heading.operations.keepsTo_expect dependencies.rest).bind fun afterOperations => ?_
  refine (keepsTo_readOperations afterOperations).bind fun ⟨operations, afterSection⟩ => ?_
  dsimp only
  split
  · rename_i error herror
    exact keepsTo_error (.nowhere (Signature.span?_of_build herror))
  · rename_i signature _
    refine (Heading.axioms.keepsTo_expect afterSection).bind fun afterAxioms => ?_
    refine (Scope.keepsTo_readRules _ afterAxioms).bind fun ⟨rules, rest⟩ => ?_
    refine (keepsTo_expectEnd rest).bind fun _ => ?_
    exact keepsTo_ok (List.nil_subset _)

/-! ## Errors in a text -/

/-- The error points at `part` of the text, between `before` and `after`. This is
    what one token or one malformed word was read from: the token that was found
    instead of what was expected, or the word that the error names. -/
structure Error.PointsAt (text : String) (error : Error) (before part after : List Char) :
    Prop where
  source : text.toList = before ++ part ++ after
  span : error.span? = some ⟨utf8Len before, utf8Len before + utf8Len part⟩
  scanned : ∃ result ∈ Token.scan text, Token.ReadFrom result before part after
  found : ∀ expected found, error = .grammar (.unexpected expected found) →
    found.text = String.ofList part
  word : ∀ malformed, error = .lexical malformed → malformed.word = String.ofList part

/-- What is scanned holds no line feed, since this is a blank. -/
theorem Token.ReadFrom.newline_notMem {result : Except LexicalError Token}
    {before part after : List Char} (h : ReadFrom result before part after) : '\n' ∉ part := by
  intro hmem
  obtain ⟨front, back, hpart⟩ := List.append_of_mem hmem
  have hblank := h.isBlank_eq_false hpart
  cases hblank

/-- An error at the span of a result points at what this was read from. -/
theorem exists_pointsAt_of_result {text : String} {error : Error}
    {result : Except LexicalError Token} (hresult : result ∈ Token.scan text)
    (hspan : error.span? = some (Token.resultSpan result))
    (hfound : ∀ expected found, error = .grammar (.unexpected expected found) →
      found.text = Token.resultText result)
    (hword : ∀ malformed, error = .lexical malformed →
      malformed.word = Token.resultText result) :
    ∃ before part after, error.PointsAt text before part after := by
  obtain ⟨before, part, after, htext, hread⟩ := (Token.laid_scan text).readFrom hresult
  refine ⟨before, part, after, htext, hspan.trans (congrArg some hread.span),
    ⟨result, hresult, hread⟩, fun expected found h => ?_, fun malformed h => ?_⟩
  · exact (hfound expected found h).trans hread.text
  · exact (hword malformed h).trans hread.text

/-- Where reading a text fails at a span, a malformed word was scanned there, or a
    token that the reader kept to. -/
theorem exists_pointsAt {α : Type} {left : α → List Token} {read : List Token → Except Error α}
    (hread : ∀ tokens, KeepsTo tokens left (read tokens)) {text : String} {error : Error}
    (h : (readTokens text >>= read) = .error error) {span : Span}
    (hspan : error.span? = some span) :
    ∃ before part after, error.PointsAt text before part after := by
  unfold readTokens at h
  cases htokens : Token.tokenize text with
  | error malformed =>
    rw [htokens] at h
    cases h
    exact exists_pointsAt_of_result (Token.error_mem_scan htokens) rfl nofun
      fun _ heq => by cases heq; rfl
  | ok tokens =>
    rw [htokens] at h
    have hscan : ∀ token ∈ tokens, .ok token ∈ Token.scan text := by
      intro token htoken
      rw [Token.scan_of_tokenize htokens]
      exact List.mem_map_of_mem htoken
    cases (hread tokens).about error h with
    | unexpected expected hfound =>
      exact exists_pointsAt_of_result (hscan _ hfound) rfl
        (fun _ _ heq => by cases heq; rfl) nofun
    | undeclaredSort sort name htoken =>
      exact exists_pointsAt_of_result (hscan _ htoken) rfl nofun nofun
    | nowhere hnone =>
      rw [hspan] at hnone
      cases hnone

/-- The region is found from the span alone. -/
theorem Diagnostic.region_ofError {error : Error} {span : Span} (hspan : error.span? = some span)
    (text : String) : (ofError error (some text)).region = some (.locate text span) := by
  simp only [ofError, hspan]

/-- Diagnostics point at the text that is wrong. Where reading a specification, a
    term or statements fails at some span, the text has there just what one token
    or one malformed word was read from, the one that the error is about; and the
    region of the diagnostic, in one line, holds these characters. Its numbers fit
    in 32 bits, unless the text is too long for its offsets to fit. -/
theorem diagnostics_hold_source (text defaultSort : String) (literals : List Literal)
    (error : Error) (span : Span)
    (failed : Specification.parse text literals = .error error ∨
      Term.parse text defaultSort literals = .error error ∨
      Statement.parse text defaultSort literals = .error error)
    (hspan : error.span? = some span) :
    ∃ (before part after : List Char) (region : Region),
      error.PointsAt text before part after ∧
      (Diagnostic.ofError error (some text)).region = some region ∧
      region.Holds text part ∧
      (text.utf8ByteSize < 2 ^ 32 - 1 → region.Within (2 ^ 32 - 1)) := by
  obtain ⟨before, part, after, hpoints⟩ :
      ∃ before part after, error.PointsAt text before part after := by
    rcases failed with h | h | h
    · exact exists_pointsAt (Specification.keepsTo_ofTokens literals) h hspan
    · exact exists_pointsAt (Term.keepsTo_ofTokens _) h hspan
    · exact exists_pointsAt (Statement.keepsTo_ofTokens _) h hspan
  obtain ⟨result, -, hread⟩ := hpoints.scanned
  refine ⟨before, part, after, _, hpoints, Diagnostic.region_ofError hpoints.span text,
    Region.holds_locate hpoints.source hread.newline_notMem, fun hsize => ?_⟩
  have hwithin := Region.within_locate hpoints.source
  simp only [Region.Within] at hwithin ⊢
  omega

/-- Behind letters of two bytes and a line feed: the comma that is missing before
    `ö` is missed in the second line, at its fifth character. -/
theorem missing_comma_on_second_line :
    (Diagnostic.ofError
        (.grammar (.unexpected (.symbol .comma) ⟨.identifier "ö", ⟨11, 13⟩⟩))
        (some "f(é,\n  ü ö)")).region = some ⟨⟨2, 5⟩, ⟨2, 6⟩⟩ ∧
      Region.Holds "f(é,\n  ü ö)" ⟨⟨2, 5⟩, ⟨2, 6⟩⟩ ['ö'] ∧
      Region.Within ⟨⟨2, 5⟩, ⟨2, 6⟩⟩ (2 ^ 32 - 1) := by
  have hfailed : Statement.parse "f(é,\n  ü ö)" "s" [] =
      .error (.grammar (.unexpected (.symbol .comma) ⟨.identifier "ö", ⟨11, 13⟩⟩)) := by cbv
  have hregion : (Diagnostic.ofError
      (.grammar (.unexpected (.symbol .comma) ⟨.identifier "ö", ⟨11, 13⟩⟩))
      (some "f(é,\n  ü ö)")).region = some ⟨⟨2, 5⟩, ⟨2, 6⟩⟩ := by
    have hlocate : Region.locate "f(é,\n  ü ö)" ⟨11, 13⟩ = ⟨⟨2, 5⟩, ⟨2, 6⟩⟩ := by cbv
    rw [Diagnostic.region_ofError rfl, hlocate]
  obtain ⟨before, part, after, region, hpoints, hsome, hholds, hwithin⟩ :=
    diagnostics_hold_source "f(é,\n  ü ö)" "s" [] _ ⟨11, 13⟩ (.inr (.inr hfailed)) rfl
  obtain rfl := Option.some.inj (hregion.symm.trans hsome)
  have hpart : String.ofList ['ö'] = String.ofList part := hpoints.found _ _ rfl
  obtain rfl := String.ofList_injective hpart
  exact ⟨hregion, hholds, hwithin (by decide)⟩

end Equational
