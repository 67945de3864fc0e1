import Equational.Proofs.Grammar.Statement
import Equational.Token.Stream

/-! # Statements read from a stream

    The readers of the grammar look at the front of a list of tokens. From a
    stream they are read by taking tokens and giving them back: a name and the
    sign behind it are an assignment, and whether that sign comes shows only when
    the name is taken. If it does not, the name goes back, and a term is read that
    begins with it.

    Both ways read the same. A stream is at its end or has a token pushed back onto
    a shorter one, which is what taking it leaves; so a reader that gives a token
    back leaves the tokens to come as they were, and `Statement.read` is what it
    does to them (`TokenStream.readStatement_eq`). The loop over the stream reads
    the statements of a text (`Statement.parse_eq_stream`).
-/

namespace Equational

namespace TokenStream

variable {stream rest : TokenStream}

/-! ## Readers -/

/-- A reader of lists reads the tokens to come, and the stream goes on with those
    that it leaves. -/
def through {α : Type} (stream : TokenStream)
    (read : (tokens : List Token) → Except Error (Parsed tokens.length α)) :
    Except Error (α × TokenStream) :=
  (read stream.tokens).map fun parsed => (parsed.value, { stream with tokens := parsed.rest })

theorem through_eq_ok_iff {α : Type} {value : α}
    {read : (tokens : List Token) → Except Error (Parsed tokens.length α)} :
    stream.through read = .ok (value, rest) ↔
      Parsed.Gives (read stream.tokens) value rest.tokens ∧ rest.size = stream.size := by
  rw [through, map_eq_ok_iff]
  constructor
  · intro h
    obtain ⟨parsed, hread, heq⟩ := h
    cases heq
    exact ⟨Parsed.gives_of_eq hread, rfl⟩
  · intro h
    obtain ⟨⟨fewer, hread⟩, hsize⟩ := h
    refine ⟨_, hread, ?_⟩
    rw [← hsize]

/-- Takes a name that is assigned to, with the sign behind it. Any other token is
    given back. -/
def takeAssigned (stream : TokenStream) : Option String × TokenStream :=
  match stream.advance with
  | (some ⟨.identifier name, span⟩, rest) =>
    if rest.currentLexeme? = some (.symbol .equal) then (some name, rest.advance.2)
    else (none, rest.pushBack ⟨.identifier name, span⟩)
  | (some token, rest) => (none, rest.pushBack token)
  | (none, rest) => (none, rest)

theorem takeAssigned_of_not_assigns (h : ¬ Statement.Assigns stream.tokens) :
    stream.takeAssigned = (none, stream) := by
  rcases stream.isAtEnd_or_pushBack with hend | ⟨⟨lexeme, span⟩, rest, rfl⟩
  · rw [takeAssigned, advance_of_isAtEnd hend]
  · unfold takeAssigned
    rw [advance_pushBack]
    cases lexeme with
    | identifier name =>
      -- the sign cannot come next
      have hother : rest.currentLexeme? ≠ some (.symbol .equal) := by
        intro hequal
        obtain ⟨⟨_, span'⟩, hnext, rfl⟩ := Option.map_eq_some_iff.mp hequal
        obtain ⟨inside, hinside⟩ := List.head?_eq_some_iff.mp hnext
        exact h ⟨name, span, span', inside, by rw [tokens_pushBack, hinside]⟩
      exact if_neg hother
    | symbol mark => rfl
    | qualified sort name => rfl
    | keyword word => rfl

/-- Reads one statement from the stream. -/
def readStatement (scope : Scope) (stream : TokenStream) :
    Except Error (Statement × TokenStream) :=
  match stream.takeAssigned with
  | (some name, rest) =>
    (rest.through scope.readTerm).map fun (term, rest) => (.assignment name term, rest)
  | (none, rest) =>
    (rest.through scope.readTerm).map fun (term, rest) => (.expression term, rest)

/-- Taking tokens and giving them back reads the statement that the tokens to come
    begin with. -/
theorem readStatement_eq (scope : Scope) (stream : TokenStream) :
    stream.readStatement scope = stream.through (Statement.read scope) := by
  by_cases hassigns : Statement.Assigns stream.tokens
  · obtain ⟨tokens, size⟩ := stream
    obtain ⟨name, span, span', inside, rfl⟩ := hassigns
    have htaken : takeAssigned
        ⟨⟨.identifier name, span⟩ :: ⟨.symbol .equal, span'⟩ :: inside, size⟩ =
        (some name, ⟨inside, size⟩) := rfl
    rw [readStatement, htaken]
    simp only [through, Statement.read]
    cases scope.readTerm inside with
    | error error => rfl
    | ok term => rfl
  · rw [readStatement, takeAssigned_of_not_assigns hassigns]
    simp only [through, Statement.read_of_not_assigns hassigns]
    cases scope.readTerm stream.tokens with
    | error error => rfl
    | ok term => rfl

theorem readStatement_fewer {scope : Scope} {statement : Statement}
    (h : stream.readStatement scope = .ok (statement, rest)) :
    rest.tokens.length < stream.tokens.length := by
  rw [readStatement_eq, through_eq_ok_iff] at h
  exact h.1.choose

/-- Reads statements up to the end of the stream. -/
def readStatements (scope : Scope) (stream : TokenStream) : Except Error (List Statement) :=
  if stream.isAtEnd then .ok []
  else
    match _ : stream.readStatement scope with
    | .error error => .error error
    | .ok (statement, rest) => (readStatements scope rest).map (statement :: ·)
termination_by stream.tokens.length
decreasing_by exact readStatement_fewer ‹_›

theorem readStatements_eq (scope : Scope) (stream : TokenStream) :
    stream.readStatements scope = Statement.readAll scope stream.tokens := by
  fun_induction readStatements scope stream with
  | case1 stream hend =>
    rw [List.isEmpty_iff.mp hend, Statement.readAll]
  | case2 stream hend error hread =>
    rw [Statement.readAll.eq_2 scope stream.tokens (by simpa [isAtEnd] using hend)]
    rw [readStatement_eq, through, map_eq_error_iff] at hread
    rw [hread]
    rfl
  | case3 stream hend statement rest hread ih =>
    rw [Statement.readAll.eq_2 scope stream.tokens (by simpa [isAtEnd] using hend), ih]
    rw [readStatement_eq, through_eq_ok_iff] at hread
    obtain ⟨⟨fewer, hread⟩, -⟩ := hread
    rw [hread]
    rfl

end TokenStream

/-! ## Statements of a text -/

/-- The statements of a text are those that its stream gives, one after the other
    up to its end. -/
theorem Statement.parse_eq_stream (text defaultSort : String) (literals : List Literal) :
    parse text defaultSort literals =
      match TokenStream.ofText text with
      | .error malformed => .error (.lexical malformed)
      | .ok stream =>
        if stream.isAtEnd then .error (.grammar .noStatements)
        else stream.readStatements ⟨defaultSort, none, literals⟩ := by
  unfold parse readTokens TokenStream.ofText
  cases Token.tokenize text with
  | error malformed => rfl
  | ok tokens =>
    cases tokens with
    | nil => rfl
    | cons token tokens =>
      exact (TokenStream.readStatements_eq ⟨defaultSort, none, literals⟩
        ⟨token :: tokens, text.utf8ByteSize⟩).symm

end Equational
