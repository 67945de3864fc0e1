import Equational.Proofs.Grammar.Statement
import Equational.Proofs.Token.Coverage

/-! # Errors at the earliest token

    A reader that fails tells where: at a token, or at the end. Its place is the
    earliest there could be.

    * **Before it** nothing is wrong: what was read begins some phrase, list of
      arguments or sentence (`Begins`), which the right tokens would complete.
    * **With it** everything is lost: the reader fails on all lists that begin
      with the tokens up to this one, whatever comes next (`Halts`).

    Both parts go up from the readers inside to those around them
    (`Halts.behind`). A reader looks at one token behind those it takes, and this
    is the token of the error or one before it, so tokens behind the error can be
    exchanged.
-/

namespace Equational

open Parsed (Gives)

/-! ## Failing and halting -/

/-- The computation ends in an error. -/
def Fails {α : Type} (result : Except Error α) : Prop :=
  ∃ error, result = .error error

/-- A step that fails makes the whole fail. -/
theorem Fails.bind {α β : Type} {first : Except Error α} (h : Fails first)
    (next : α → Except Error β) : Fails (first >>= next) := by
  obtain ⟨error, rfl⟩ := h
  exact ⟨error, rfl⟩

/-- So does one behind a step that succeeds. -/
theorem fails_bind_of_ok {α β : Type} {first : Except Error α} {next : α → Except Error β}
    {value : α} (h : first = .ok value) (hnext : Fails (next value)) : Fails (first >>= next) := by
  rw [h]
  exact hnext

/-- `Halts viable fails tokens error`: the error stands at the first of the tokens
    that does not go on from a viable list, and every list that goes on with that
    token fails; or it stands at the end, and the tokens are viable. -/
inductive Halts (viable fails : List Token → Prop) (tokens : List Token) : Error → Prop where
  | unexpected {before after : List Token} {found : Token} (expected : Expected) :
      tokens = before ++ found :: after → viable before →
      (∀ more, fails (before ++ found :: more)) →
      Halts viable fails tokens (.grammar (.unexpected expected found))
  | endOfInput (expected : Expected) :
      viable tokens → Halts viable fails tokens (.grammar (.endOfInput expected))
  | noStatements : viable tokens → Halts viable fails tokens (.grammar .noStatements)

/-- An error of a reader is one of the reader around it, which took some tokens
    before. -/
theorem Halts.behind {viable fails viable' fails' : List Token → Prop} {rest : List Token}
    {error : Error} (h : Halts viable fails rest error) (taken : List Token)
    (hviable : ∀ tokens, viable tokens → viable' (taken ++ tokens))
    (hfails : ∀ other, other.head? = rest.head? → fails other → fails' (taken ++ other)) :
    Halts viable' fails' (taken ++ rest) error := by
  cases h with
  | @unexpected before after found expected htokens hbefore hdead =>
    have hsplit : taken ++ rest = (taken ++ before) ++ found :: after := by
      rw [htokens, List.append_assoc]
    refine .unexpected expected hsplit (hviable before hbefore) fun more => ?_
    -- both lists have the same tokens up to the one of the error
    have hhead : (before ++ found :: more).head? = rest.head? := by
      rw [htokens, List.head?_append, List.head?_append]
      rfl
    rw [List.append_assoc]
    exact hfails _ hhead (hdead more)
  | endOfInput expected hrest => exact .endOfInput expected (hviable rest hrest)
  | noStatements hrest => exact .noStatements (hviable rest hrest)

/-- So is it where no token was taken before. -/
theorem Halts.imp {viable fails viable' fails' : List Token → Prop} {tokens : List Token}
    {error : Error} (h : Halts viable fails tokens error)
    (hviable : ∀ tokens, viable tokens → viable' tokens)
    (hfails : ∀ other, other.head? = tokens.head? → fails other → fails' other) :
    Halts viable' fails' tokens error :=
  h.behind [] hviable hfails

/-- The tokens begin something that is written with these lexemes, and can be
    completed by lexemes that a text can hold. -/
def Begins {α : Type} (lexemes : α → List Lexeme) (tokens : List Token) : Prop :=
  ∃ (whole : α) (more : List Lexeme), (∀ lexeme ∈ more, lexeme.WellFormed) ∧
    lexemes whole = tokens.map Token.lexeme ++ more

theorem startsWith_congr {tokens other : List Token} (h : other.head? = tokens.head?)
    (lexeme : Lexeme) : StartsWith lexeme other ↔ StartsWith lexeme tokens := by
  rw [startsWith_iff_head?, startsWith_iff_head?, List.head?_map, List.head?_map, h]

/-! ## Terms -/

/-- Any place where a phrase may stand can be filled. -/
theorem begins_phrase : Begins Phrase.lexemes [] := by
  refine ⟨.name (.plain "x"), [.identifier "x"], ?_, rfl⟩
  exact List.forall_mem_singleton.mpr (show Lexical "x" by decide)

/-- So can any place behind an argument. -/
theorem begins_moreLexemes : Begins Phrase.moreLexemes [] :=
  ⟨[], [.symbol .rparen], List.forall_mem_singleton.mpr trivial, rfl⟩

theorem Begins.argumentLexemes {tokens : List Token} (h : Begins Phrase.lexemes tokens) :
    Begins Phrase.argumentLexemes tokens := by
  obtain ⟨phrase, more, hformed, hlexemes⟩ := h
  refine ⟨[phrase], more ++ [.symbol .rparen], ?_, ?_⟩
  · exact List.forall_mem_append.mpr ⟨hformed, List.forall_mem_singleton.mpr trivial⟩
  · simp [Phrase.argumentLexemes, Phrase.moreLexemes, hlexemes]

theorem Begins.moreLexemes {tokens : List Token} (h : Begins Phrase.lexemes tokens) {comma : Token}
    (hcomma : comma.lexeme = .symbol .comma) : Begins Phrase.moreLexemes (comma :: tokens) := by
  obtain ⟨phrase, more, hformed, hlexemes⟩ := h
  refine ⟨[phrase], more ++ [.symbol .rparen], ?_, ?_⟩
  · exact List.forall_mem_append.mpr ⟨hformed, List.forall_mem_singleton.mpr trivial⟩
  · simp [Phrase.moreLexemes, hlexemes, hcomma]

/-- Further arguments follow a whole one. -/
theorem Begins.afterArgument {phrase : Phrase} {taken tokens : List Token}
    (h : Begins Phrase.moreLexemes tokens) (htaken : taken.map Token.lexeme = phrase.lexemes) :
    Begins Phrase.argumentLexemes (taken ++ tokens) := by
  obtain ⟨arguments, more, hformed, hlexemes⟩ := h
  refine ⟨phrase :: arguments, more, hformed, ?_⟩
  simp [Phrase.argumentLexemes, hlexemes, htaken]

theorem Begins.afterNext {phrase : Phrase} {taken tokens : List Token} {span : Span}
    (h : Begins Phrase.moreLexemes tokens) (htaken : taken.map Token.lexeme = phrase.lexemes) :
    Begins Phrase.moreLexemes (⟨.symbol .comma, span⟩ :: taken ++ tokens) := by
  obtain ⟨arguments, more, hformed, hlexemes⟩ := h
  refine ⟨phrase :: arguments, more, hformed, ?_⟩
  simp [Phrase.moreLexemes, hlexemes, htaken]

namespace Scope

variable {scope : Scope}

/-- Without a signature only the token itself can be refused. -/
theorem eq_unexpected_of_resolve (unchecked : scope.signature? = none) {token : Token}
    {error : Error} (h : scope.resolve token = .error error) :
    error = .grammar (.unexpected .identifier token) := by
  unfold resolve at h
  split at h
  · cases h
  · simp [unchecked] at h
  · cases h
    rfl

theorem terminal_ne_error (unchecked : scope.signature? = none) (name sort : String) (span : Span)
    (error : Error) : scope.terminal name sort span ≠ .error error := by
  have hadmits : scope.AdmitsName name sort := by simp [AdmitsName, unchecked]
  rw [(terminal_eq_ok_iff scope name sort span _).mpr ⟨hadmits, rfl⟩]
  intro h
  cases h

theorem application_ne_error (unchecked : scope.signature? = none) (name sort : String)
    (arguments : List Term) (error : Error) :
    scope.application name sort arguments ≠ .error error := by
  have hadmits : scope.AdmitsApplication name sort arguments.length := by
    simp [AdmitsApplication, unchecked]
  rw [application_eq_ok_iff.mpr ⟨hadmits, rfl⟩]
  intro h
  cases h

/-- A token that is refused is so in any place. -/
theorem fails_of_resolve {token : Token} (h : Fails (scope.resolve token)) (more : List Token) :
    Fails (scope.readTerm (token :: more)) := by
  by_cases hopen : StartsWith (.symbol .lparen) more
  · obtain ⟨span, inside, rfl⟩ := hopen
    rw [readTerm]
    exact h.bind _
  · rw [readTerm.eq_3 scope token more fun span inside h => hopen ⟨span, inside, h⟩]
    exact h.bind _

theorem halts_of_resolve (unchecked : scope.signature? = none) {token : Token} {error : Error}
    (h : scope.resolve token = .error error) (rest : List Token) :
    Halts (Begins Phrase.lexemes) (fun tokens => Fails (scope.readTerm tokens)) (token :: rest)
      error := by
  obtain rfl := eq_unexpected_of_resolve unchecked h
  exact .unexpected .identifier (List.nil_append _).symm begins_phrase (fails_of_resolve ⟨_, h⟩)

/-- A term is read with any other tokens behind it, if the first of them stays. -/
theorem exists_taken_of_readTerm (unchecked : scope.signature? = none) {tokens : List Token}
    {term : Term} {rest : List Token} (h : Gives (scope.readTerm tokens) term rest) :
    ∃ (phrase : Phrase) (taken : List Token), tokens = taken ++ rest ∧
      taken.map Token.lexeme = phrase.lexemes ∧
      ∀ other, other.head? = rest.head? →
        Gives (scope.readTerm (taken ++ other)) term other := by
  obtain ⟨phrase, hwritten, -, rfl, hbare⟩ := readTerm_gives_iff.mp h
  obtain ⟨taken, rfl, htaken⟩ := written_iff.mp hwritten
  refine ⟨phrase, taken, rfl, htaken, fun other hother => ?_⟩
  refine readTerm_gives_iff.mpr ⟨phrase, written_iff.mpr ⟨taken, rfl, htaken⟩,
    admits_of_unchecked unchecked phrase, rfl, fun hname => ?_⟩
  rw [startsWith_congr hother]
  exact hbare hname

/-- A first argument that cannot be read makes the list fail. -/
theorem fails_of_first {tokens : List Token} (hclosed : ¬ StartsWith (.symbol .rparen) tokens)
    (h : Fails (scope.readTerm tokens)) : Fails (scope.readArguments tokens) := by
  rw [readArguments.eq_2 scope tokens fun span more h => hclosed ⟨span, more, h⟩]
  exact h.bind _

/-- So does what comes behind it. -/
theorem fails_of_afterFirst {tokens rest : List Token} {term : Term}
    (hterm : Gives (scope.readTerm tokens) term rest) (h : Fails (scope.readMoreArguments rest)) :
    Fails (scope.readArguments tokens) := by
  have hclosed : ¬ StartsWith (.symbol .rparen) tokens := by
    obtain ⟨phrase, hwritten, -⟩ := readTerm_gives_iff.mp hterm
    rw [← List.append_nil phrase.lexemes] at hwritten
    exact Phrase.not_startsWith_symbol hwritten .rparen
  obtain ⟨fewer, hterm⟩ := hterm
  rw [readArguments.eq_2 scope tokens fun span more h => hclosed ⟨span, more, h⟩]
  exact fails_bind_of_ok hterm (h.bind _)

/-- The same behind a comma. -/
theorem fails_of_next {tokens : List Token} {span : Span} (h : Fails (scope.readTerm tokens)) :
    Fails (scope.readMoreArguments (⟨.symbol .comma, span⟩ :: tokens)) := by
  rw [readMoreArguments.eq_2 scope _ (by simp)]
  exact fails_bind_of_ok rfl (h.bind _)

theorem fails_of_afterNext {tokens rest : List Token} {span : Span} {term : Term}
    (hterm : Gives (scope.readTerm tokens) term rest) (h : Fails (scope.readMoreArguments rest)) :
    Fails (scope.readMoreArguments (⟨.symbol .comma, span⟩ :: tokens)) := by
  obtain ⟨fewer, hterm⟩ := hterm
  rw [readMoreArguments.eq_2 scope _ (by simp)]
  exact fails_bind_of_ok rfl (fails_bind_of_ok hterm (h.bind _))

/-- Behind an argument, everything but a comma and a closing parenthesis fails. -/
theorem halts_of_expect_comma {tokens : List Token}
    (hopen : ∀ span more, tokens = ⟨.symbol .rparen, span⟩ :: more → False) {error : Error}
    (h : Symbol.comma.expect tokens = .error error) :
    Halts (Begins Phrase.moreLexemes) (fun tokens => Fails (scope.readMoreArguments tokens))
      tokens error := by
  cases tokens with
  | nil =>
    cases h
    exact .endOfInput _ begins_moreLexemes
  | cons token rest =>
    by_cases hcomma : token.lexeme = .symbol .comma
    · rw [Symbol.expect, if_pos hcomma] at h
      cases h
    · rw [Symbol.expect, if_neg hcomma] at h
      cases h
      refine .unexpected _ (List.nil_append _).symm begins_moreLexemes fun more => ?_
      have hother : ∀ span rest', token :: more = ⟨.symbol .rparen, span⟩ :: rest' → False := by
        intro span rest' heq
        exact hopen span rest (by rw [(List.cons.inj heq).1])
      rw [List.nil_append, readMoreArguments.eq_2 scope _ hother, Symbol.expect, if_neg hcomma]
      exact Fails.bind ⟨_, rfl⟩ _

/-- The reader of terms halts at its errors, and so do the readers of arguments. -/
theorem halts_of_readTerm (unchecked : scope.signature? = none) (tokens : List Token) :
    ∀ error, scope.readTerm tokens = .error error →
      Halts (Begins Phrase.lexemes) (fun tokens => Fails (scope.readTerm tokens)) tokens error := by
  -- on the recursion of the three readers, each with its own part of a phrase
  refine readTerm.induct
    (fun tokens => ∀ error, scope.readTerm tokens = .error error →
      Halts (Begins Phrase.lexemes) (fun tokens => Fails (scope.readTerm tokens)) tokens error)
    (fun tokens => ∀ error, scope.readArguments tokens = .error error →
      Halts (Begins Phrase.argumentLexemes) (fun tokens => Fails (scope.readArguments tokens))
        tokens error)
    (fun tokens => ∀ error, scope.readMoreArguments tokens = .error error →
      Halts (Begins Phrase.moreLexemes) (fun tokens => Fails (scope.readMoreArguments tokens))
        tokens error)
    ?_ ?_ ?_ ?_ ?_ ?_ ?_ tokens
  · -- no token
    intro error h
    rw [readTerm] at h
    cases h
    exact .endOfInput .identifier begins_phrase
  · -- a name and an opening parenthesis
    intro token span inside ih error h
    rw [readTerm] at h
    rcases bind_eq_error_iff.mp h with hresolve | ⟨⟨name, sort⟩, hresolve, h⟩
    · exact halts_of_resolve unchecked hresolve _
    rcases bind_eq_error_iff.mp h with harguments | ⟨arguments, -, h⟩
    · obtain ⟨head, hhead, -⟩ := resolve_eq_ok_iff.mp hresolve
      refine (ih error harguments).behind [token, ⟨.symbol .lparen, span⟩] ?_ ?_
      · rintro tokens ⟨arguments, more, hformed, hlexemes⟩
        exact ⟨.application head arguments, more, hformed, by
          simp [Phrase.lexemes, hlexemes, hhead]⟩
      · intro other _ hother
        show Fails (scope.readTerm (token :: ⟨.symbol .lparen, span⟩ :: other))
        rw [readTerm]
        exact fails_bind_of_ok hresolve (hother.bind _)
    rcases bind_eq_error_iff.mp h with happlication | ⟨term, -, h⟩
    · exact absurd happlication (application_ne_error unchecked name sort arguments.value error)
    · cases h
  · -- a name that no parenthesis follows
    intro token rest hbare error h
    rw [readTerm.eq_3 scope token rest hbare] at h
    rcases bind_eq_error_iff.mp h with hresolve | ⟨⟨name, sort⟩, hresolve, h⟩
    · exact halts_of_resolve unchecked hresolve _
    rcases bind_eq_error_iff.mp h with hterminal | ⟨term, -, h⟩
    · exact absurd hterminal (terminal_ne_error unchecked name sort token.span error)
    · cases h
  · -- no arguments
    intro span rest error h
    rw [readArguments] at h
    cases h
  · -- the first argument
    intro tokens hopen ihFirst ihMore error h
    rw [readArguments.eq_2 scope tokens hopen] at h
    rcases bind_eq_error_iff.mp h with hargument | ⟨argument, hargument, h⟩
    · refine (ihFirst error hargument).imp (fun _ => Begins.argumentLexemes) ?_
      intro other hhead hother
      have hclosed : ¬ StartsWith (.symbol .rparen) other := by
        rw [startsWith_congr hhead]
        rintro ⟨span, more, h⟩
        exact hopen span more h
      exact fails_of_first hclosed hother
    rcases bind_eq_error_iff.mp h with hmore | ⟨more, -, h⟩
    · obtain ⟨phrase, taken, htokens, htaken, hread⟩ :=
        exists_taken_of_readTerm unchecked (Parsed.gives_of_eq hargument)
      rw [htokens]
      refine (ihMore argument error hmore).behind taken (fun _ h => h.afterArgument htaken) ?_
      intro other hhead hother
      exact fails_of_afterFirst (hread other hhead) hother
    · cases h
  · -- the closing parenthesis
    intro span rest error h
    rw [readMoreArguments] at h
    cases h
  · -- a comma and one more argument
    intro tokens hopen ihNext ihMore error h
    rw [readMoreArguments.eq_2 scope tokens hopen] at h
    rcases bind_eq_error_iff.mp h with hexpect | ⟨comma, hexpect, h⟩
    · exact halts_of_expect_comma hopen hexpect
    obtain ⟨span, hcomma⟩ :=
      written_singleton.mp (Symbol.expect_gives_iff.mp (Parsed.gives_of_eq hexpect))
    rcases bind_eq_error_iff.mp h with hargument | ⟨argument, hargument, h⟩
    · rw [hcomma]
      refine (ihNext comma error hargument).behind [⟨.symbol .comma, span⟩]
        (fun _ h => h.moreLexemes rfl) ?_
      intro other _ hother
      exact fails_of_next hother
    rcases bind_eq_error_iff.mp h with hmore | ⟨more, -, h⟩
    · obtain ⟨phrase, taken, htokens, htaken, hread⟩ :=
        exists_taken_of_readTerm unchecked (Parsed.gives_of_eq hargument)
      rw [hcomma, htokens, ← List.cons_append]
      refine (ihMore comma argument error hmore).behind _ (fun _ h => h.afterNext htaken) ?_
      intro other hhead hother
      exact fails_of_afterNext (hread other hhead) hother
    · cases h

end Scope

/-! ## Whole terms -/

/-- Lexemes as tokens, wherever they stand. -/
def tokensOf (lexemes : List Lexeme) : List Token :=
  lexemes.map (⟨·, ⟨0, 0⟩⟩)

@[simp] theorem map_lexeme_tokensOf (lexemes : List Lexeme) :
    (tokensOf lexemes).map Token.lexeme = lexemes := by
  rw [tokensOf, List.map_map]
  exact List.map_id lexemes

/-- Some tokens that a text can hold complete these to an accepted list. -/
def Viable (accepted : List Token → Prop) (tokens : List Token) : Prop :=
  ∃ more : List Token, (∀ token ∈ more, token.lexeme.WellFormed) ∧ accepted (tokens ++ more)

theorem viable_of_accepted {accepted : List Token → Prop} {tokens : List Token}
    (h : accepted tokens) : Viable accepted tokens :=
  ⟨[], List.forall_mem_nil _, by rwa [List.append_nil]⟩

theorem viable_of_lexemes {accepted : List Token → Prop} {tokens : List Token}
    {more : List Lexeme} (hformed : ∀ lexeme ∈ more, lexeme.WellFormed)
    (haccepted : accepted (tokens ++ tokensOf more)) : Viable accepted tokens := by
  refine ⟨tokensOf more, ?_, haccepted⟩
  intro token htoken
  obtain ⟨lexeme, hlexeme, rfl⟩ := List.mem_map.mp htoken
  exact hformed lexeme hlexeme

/-- The reader of whole terms halts where the reader of terms does, or at a token
    behind a term. -/
theorem Term.halts_of_ofTokens {scope : Scope} (unchecked : scope.signature? = none)
    {tokens : List Token} {error : Error} (h : ofTokens scope tokens = .error error) :
    Halts (Viable fun tokens => ∃ term, ofTokens scope tokens = .ok term)
      (fun tokens => ¬ ∃ term, ofTokens scope tokens = .ok term) tokens error := by
  have haccepted : ∀ tokens (phrase : Phrase), phrase.lexemes = tokens.map Token.lexeme →
      ∃ term, ofTokens scope tokens = .ok term := by
    intro tokens phrase hphrase
    exact ⟨_, ofTokens_eq_ok_iff.mpr
      ⟨phrase, hphrase, Scope.admits_of_unchecked unchecked phrase, rfl⟩⟩
  rw [ofTokens] at h
  rcases bind_eq_error_iff.mp h with hread | ⟨term, hread, h⟩
  · refine (Scope.halts_of_readTerm unchecked tokens error hread).imp ?_ ?_
    · rintro before ⟨phrase, more, hformed, hlexemes⟩
      exact viable_of_lexemes hformed (haccepted _ phrase (by simp [hlexemes]))
    · rintro other - ⟨failure, hfailure⟩ ⟨term, hterm⟩
      rw [ofTokens, hfailure] at hterm
      cases hterm
  · -- something is left behind the term
    rcases bind_eq_error_iff.mp h with hend | ⟨_, -, h⟩
    · obtain ⟨phrase, taken, htokens, htaken, hother⟩ :=
        Scope.exists_taken_of_readTerm unchecked (Parsed.gives_of_eq hread)
      cases hrest : term.rest with
      | nil =>
        rw [hrest] at hend
        cases hend
      | cons found after =>
        rw [hrest] at hend htokens hother
        cases hend
        have hviable : Viable (fun tokens => ∃ term, ofTokens scope tokens = .ok term) taken :=
          viable_of_accepted (haccepted taken phrase htaken.symm)
        refine .unexpected _ htokens hviable ?_
        rintro more ⟨whole, hwhole⟩
        obtain ⟨fewer, hgives⟩ := hother (found :: more) rfl
        rw [ofTokens, hgives] at hwhole
        cases hwhole
    · cases h

/-! ## Statements -/

namespace Statement

variable {scope : Scope}

/-- An assignment is seen in the first two tokens, so in the first of these and the
    one behind them. -/
theorem Assigns.congr {front rest other : List Token} (h : Assigns (front ++ other))
    (hfront : front ≠ []) (hhead : other.head? = rest.head?) : Assigns (front ++ rest) := by
  obtain ⟨name, span, span', inside, h⟩ := h
  rcases front with _ | ⟨token, _ | ⟨next, front⟩⟩
  · contradiction
  · -- the equality sign is the one token that both lists have behind the name
    obtain ⟨rfl, rfl⟩ := List.cons.inj h
    cases rest with
    | nil => cases hhead
    | cons next rest =>
      cases hhead
      exact ⟨name, span, span', rest, rfl⟩
  · simp only [List.cons_append, List.cons.injEq] at h
    obtain ⟨rfl, rfl, -⟩ := h
    exact ⟨name, span, span', front ++ rest, rfl⟩

/-- A statement is read with any other tokens behind it, if the first of them
    stays. -/
theorem exists_taken_of_read (unchecked : scope.signature? = none) {tokens rest : List Token}
    {statement : Statement} (h : Gives (read scope tokens) statement rest) :
    ∃ (sentence : Sentence) (taken : List Token), tokens = taken ++ rest ∧
      taken.map Token.lexeme = sentence.lexemes ∧
      ∀ other, other.head? = rest.head? →
        Gives (read scope (taken ++ other)) statement other := by
  by_cases hassigns : Assigns tokens
  · obtain ⟨name, span, span', inside, rfl⟩ := hassigns
    rw [read] at h
    obtain ⟨term, hterm, h⟩ := Parsed.gives_bind_iff.mp h
    obtain ⟨rfl, rfl⟩ := Parsed.gives_ok_iff.mp h
    obtain ⟨phrase, taken, hinside, htaken, hother⟩ :=
      Scope.exists_taken_of_readTerm unchecked hterm
    refine ⟨.assignment name phrase, ⟨.identifier name, span⟩ :: ⟨.symbol .equal, span'⟩ :: taken,
      congrArg (_ :: _ :: ·) hinside, by simp [Sentence.lexemes, htaken], fun other hhead => ?_⟩
    show Gives (read scope (⟨.identifier name, span⟩ :: ⟨.symbol .equal, span'⟩ ::
      (taken ++ other))) _ other
    rw [read]
    exact Parsed.gives_bind (hother other hhead) fun _ => Parsed.gives_ok_iff.mpr ⟨rfl, rfl⟩
  · rw [read_of_not_assigns hassigns] at h
    obtain ⟨term, hterm, h⟩ := Parsed.gives_bind_iff.mp h
    obtain ⟨rfl, rfl⟩ := Parsed.gives_ok_iff.mp h
    obtain ⟨phrase, taken, htokens, htaken, hother⟩ :=
      Scope.exists_taken_of_readTerm unchecked hterm
    refine ⟨.expression phrase, taken, htokens, htaken, fun other hhead => ?_⟩
    have hne : taken ≠ [] := by
      rintro rfl
      obtain ⟨others, hlexemes⟩ := phrase.lexemes_eq_cons
      simp [hlexemes] at htaken
    -- no equality sign has come behind a bare name
    have hother' : ¬ Assigns (taken ++ other) := fun h =>
      hassigns (htokens ▸ h.congr hne hhead)
    rw [read_of_not_assigns hother']
    exact Parsed.gives_bind (hother other hhead) fun _ => Parsed.gives_ok_iff.mpr ⟨rfl, rfl⟩

theorem begins_expression {tokens : List Token} (h : Begins Phrase.lexemes tokens) :
    Begins Sentence.lexemes tokens := by
  obtain ⟨phrase, more, hformed, hlexemes⟩ := h
  exact ⟨.expression phrase, more, hformed, hlexemes⟩

/-- A name alone is a term. -/
theorem not_fails_of_identifier (unchecked : scope.signature? = none) (name : String)
    (span : Span) : ¬ Fails (scope.readTerm [⟨.identifier name, span⟩]) := by
  rintro ⟨error, h⟩
  obtain ⟨_, hread⟩ := Scope.gives_of_written (.name (.plain name)) [⟨.identifier name, span⟩] []
    (written_singleton.mpr ⟨span, rfl⟩) (Scope.admits_of_unchecked unchecked _)
    (fun _ => not_startsWith_nil)
  rw [hread] at h
  cases h

/-- Where no term can be read, a statement cannot either, if it assigns nothing. -/
theorem halts_of_expression (unchecked : scope.signature? = none) {tokens : List Token}
    {error : Error} (hassigns : ¬ Assigns tokens)
    (h : Halts (Begins Phrase.lexemes) (fun tokens => Fails (scope.readTerm tokens)) tokens error) :
    Halts (Begins Sentence.lexemes) (fun tokens => Fails (read scope tokens)) tokens error := by
  cases h with
  | endOfInput expected hviable => exact .endOfInput expected (begins_expression hviable)
  | noStatements hviable => exact .noStatements (begins_expression hviable)
  | @unexpected before after found expected htokens hviable hdead =>
    refine .unexpected expected htokens (begins_expression hviable) fun more => ?_
    have hnot : ¬ Assigns (before ++ found :: more) := by
      intro hmore
      cases before with
      | nil =>
        -- the first token is no name, or it would be a term
        obtain ⟨name, span, span', inside, heq⟩ := hmore
        obtain ⟨rfl, -⟩ := List.cons.inj heq
        exact not_fails_of_identifier unchecked name span (hdead [])
      | cons token before =>
        rw [htokens] at hassigns
        exact hassigns (hmore.congr (by simp) rfl)
    rw [read_of_not_assigns hnot]
    exact (hdead more).bind _

theorem halts_of_read (unchecked : scope.signature? = none) {tokens : List Token} {error : Error}
    (h : read scope tokens = .error error) :
    Halts (Begins Sentence.lexemes) (fun tokens => Fails (read scope tokens)) tokens error := by
  by_cases hassigns : Assigns tokens
  · obtain ⟨name, span, span', inside, rfl⟩ := hassigns
    rw [read] at h
    rcases bind_eq_error_iff.mp h with hterm | ⟨term, -, h⟩
    · refine (Scope.halts_of_readTerm unchecked inside error hterm).behind
        [⟨.identifier name, span⟩, ⟨.symbol .equal, span'⟩] ?_ ?_
      · rintro before ⟨phrase, more, hformed, hlexemes⟩
        exact ⟨.assignment name phrase, more, hformed, by simp [Sentence.lexemes, hlexemes]⟩
      · intro other _ hother
        show Fails (read scope (⟨.identifier name, span⟩ :: ⟨.symbol .equal, span'⟩ :: other))
        rw [read]
        exact hother.bind _
    · cases h
  · rw [read_of_not_assigns hassigns] at h
    rcases bind_eq_error_iff.mp h with hterm | ⟨term, -, h⟩
    · exact halts_of_expression unchecked hassigns
        (Scope.halts_of_readTerm unchecked tokens error hterm)
    · cases h

/-- Statements are read with any other tokens behind the first of them. -/
theorem fails_of_readAll {tokens rest : List Token} {statement : Statement}
    (hstatement : Gives (read scope tokens) statement rest) (h : Fails (readAll scope rest)) :
    Fails (readAll scope tokens) := by
  obtain ⟨fewer, hstatement⟩ := hstatement
  have hne : tokens ≠ [] := by
    rintro rfl
    simp at fewer
  rw [readAll.eq_2 scope tokens hne]
  exact fails_bind_of_ok hstatement (h.bind _)

theorem halts_of_readAll (unchecked : scope.signature? = none) {tokens : List Token}
    {error : Error} (h : readAll scope tokens = .error error) :
    Halts (Viable fun tokens => ∃ statements, ofTokens scope tokens = .ok statements)
      (fun tokens => Fails (readAll scope tokens)) tokens error := by
  induction tokens using readAll.induct with
  | case1 => simp [readAll] at h
  | case2 tokens hnil ih =>
    rw [readAll.eq_2 scope tokens hnil] at h
    rcases bind_eq_error_iff.mp h with hstatement | ⟨statement, hstatement, h⟩
    · refine (halts_of_read unchecked hstatement).imp ?_ ?_
      · rintro before ⟨sentence, more, hformed, hlexemes⟩
        refine viable_of_lexemes hformed ⟨_, (ofTokens_eq_ok_iff unchecked).mpr
          ⟨[sentence], by simp, ?_, rfl⟩⟩
        simp [hlexemes]
      · intro other hhead hother
        have hne : other ≠ [] := by
          rintro rfl
          cases tokens with
          | nil => contradiction
          | cons token tokens => cases hhead
        show Fails (readAll scope other)
        rw [readAll.eq_2 scope other hne]
        exact hother.bind _
    rcases bind_eq_error_iff.mp h with hmore | ⟨more, -, h⟩
    · obtain ⟨sentence, taken, htokens, htaken, hother⟩ :=
        exists_taken_of_read unchecked (Parsed.gives_of_eq hstatement)
      rw [htokens]
      refine (ih statement hmore).behind taken ?_ fun other hhead hfails =>
        fails_of_readAll (hother other hhead) hfails
      rintro before ⟨completion, hformed, statements, hstatements⟩
      obtain ⟨sentences, -, hlexemes, -⟩ := (ofTokens_eq_ok_iff unchecked).mp hstatements
      refine ⟨completion, hformed, _, (ofTokens_eq_ok_iff unchecked).mpr
        ⟨sentence :: sentences, by simp, ?_, rfl⟩⟩
      rw [List.flatMap_cons, hlexemes, ← htaken, ← List.map_append, List.append_assoc]
    · cases h

/-- The reader of whole texts of statements halts where the reader of the first
    statement that fails does; no statement at all can still become one. -/
theorem halts_of_ofTokens (unchecked : scope.signature? = none) {tokens : List Token}
    {error : Error} (h : ofTokens scope tokens = .error error) :
    Halts (Viable fun tokens => ∃ statements, ofTokens scope tokens = .ok statements)
      (fun tokens => ¬ ∃ statements, ofTokens scope tokens = .ok statements) tokens error := by
  cases tokens with
  | nil =>
    cases h
    obtain ⟨phrase, more, hformed, hlexemes⟩ := begins_phrase
    refine .noStatements (viable_of_lexemes hformed ⟨_, (ofTokens_eq_ok_iff unchecked).mpr
      ⟨[.expression phrase], by simp, ?_, rfl⟩⟩)
    simpa [Sentence.lexemes] using hlexemes
  | cons token rest =>
    rw [ofTokens.eq_2 scope (token :: rest) (by simp)] at h
    refine (halts_of_readAll unchecked h).imp (fun _ hviable => hviable) ?_
    rintro other hhead ⟨failure, hfailure⟩ ⟨statements, hstatements⟩
    have hne : other ≠ [] := by
      rintro rfl
      cases hhead
    rw [ofTokens.eq_2 scope other hne, hfailure] at hstatements
    cases hstatements

end Statement

/-! ## Texts -/

/-- The errors of terms and of statements stand at the earliest place there could
    be. Where a text consists of tokens, all of them at places of their own, it
    is refused by the grammar alone. An error at a token says that no list that
    begins with the tokens up to this one is accepted, and that one which begins
    with those before it is. An error at the end says that more tokens would
    make the text a correct one. -/
theorem errors_at_earliest_token (text defaultSort : String) (literals : List Literal)
    (tokens : List Token) (tokenized : Token.tokenize text = .ok tokens) :
    (tokens.map Token.span).Nodup ∧
    (∀ error, Term.parse text defaultSort literals = .error error →
      Halts
        (Viable fun tokens =>
          ∃ term, Term.ofTokens ⟨defaultSort, none, literals⟩ tokens = .ok term)
        (fun tokens => ¬ ∃ term, Term.ofTokens ⟨defaultSort, none, literals⟩ tokens = .ok term)
        tokens error) ∧
    ∀ error, Statement.parse text defaultSort literals = .error error →
      Halts
        (Viable fun tokens =>
          ∃ statements, Statement.ofTokens ⟨defaultSort, none, literals⟩ tokens = .ok statements)
        (fun tokens =>
          ¬ ∃ statements, Statement.ofTokens ⟨defaultSort, none, literals⟩ tokens = .ok statements)
        tokens error := by
  have hread : readTokens text = .ok tokens := by rw [readTokens, tokenized]
  refine ⟨Token.nodup_spans tokenized, fun error h => ?_, fun error h => ?_⟩
  · rw [Term.parse, hread] at h
    exact Term.halts_of_ofTokens rfl h
  · rw [Statement.parse, hread] at h
    exact Statement.halts_of_ofTokens rfl h

/-- A comma is missing in the text `x=f(a b)`: no text that begins with `x=f(a b`
    is a list of statements, but `x=f(a` begins some. -/
theorem missing_comma_halts :
    Halts
      (Viable fun tokens =>
        ∃ statements, Statement.ofTokens ⟨"s", none, []⟩ tokens = .ok statements)
      (fun tokens => ¬ ∃ statements, Statement.ofTokens ⟨"s", none, []⟩ tokens = .ok statements)
      [⟨.identifier "x", ⟨0, 1⟩⟩, ⟨.symbol .equal, ⟨1, 2⟩⟩, ⟨.identifier "f", ⟨2, 3⟩⟩,
        ⟨.symbol .lparen, ⟨3, 4⟩⟩, ⟨.identifier "a", ⟨4, 5⟩⟩, ⟨.identifier "b", ⟨6, 7⟩⟩,
        ⟨.symbol .rparen, ⟨7, 8⟩⟩]
      (.grammar (.unexpected (.symbol .comma) ⟨.identifier "b", ⟨6, 7⟩⟩)) := by
  have tokenized : Token.tokenize "x=f(a b)" =
      .ok [⟨.identifier "x", ⟨0, 1⟩⟩, ⟨.symbol .equal, ⟨1, 2⟩⟩, ⟨.identifier "f", ⟨2, 3⟩⟩,
        ⟨.symbol .lparen, ⟨3, 4⟩⟩, ⟨.identifier "a", ⟨4, 5⟩⟩, ⟨.identifier "b", ⟨6, 7⟩⟩,
        ⟨.symbol .rparen, ⟨7, 8⟩⟩] := by cbv
  have herror : Statement.parse "x=f(a b)" "s" [] =
      .error (.grammar (.unexpected (.symbol .comma) ⟨.identifier "b", ⟨6, 7⟩⟩)) := by cbv
  obtain ⟨-, -, hstatements⟩ := errors_at_earliest_token "x=f(a b)" "s" [] _ tokenized
  exact hstatements _ herror

end Equational
