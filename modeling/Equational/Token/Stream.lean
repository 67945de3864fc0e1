import Equational.Token.Scanner

/-! # Token streams

    A reader takes tokens one at a time and may give back any it has taken; the
    stream hands the last one given back out first. So a stream is no more than
    the list of tokens to come, beside the size of the text for errors at its
    end.
-/

namespace Equational

/-- The tokens still to come, and the size in bytes of the text they are from. -/
structure TokenStream where
  tokens : List Token
  size : Nat
deriving DecidableEq, Repr

namespace TokenStream

/-- All tokens of a text. -/
def ofText (text : String) : Except LexicalError TokenStream :=
  (Token.tokenize text).map fun tokens => ⟨tokens, text.utf8ByteSize⟩

/-- The token that comes next. -/
def current? (stream : TokenStream) : Option Token :=
  stream.tokens.head?

/-- The lexeme that comes next. -/
def currentLexeme? (stream : TokenStream) : Option Lexeme :=
  stream.current?.map Token.lexeme

/-- Takes the next token; a stream at its end stays there. -/
def advance (stream : TokenStream) : Option Token × TokenStream :=
  (stream.current?, { stream with tokens := stream.tokens.tail })

/-- Gives a token back. -/
def pushBack (stream : TokenStream) (token : Token) : TokenStream :=
  { stream with tokens := token :: stream.tokens }

/-- Whether no token is left. -/
def isAtEnd (stream : TokenStream) : Bool :=
  stream.tokens.isEmpty

/-- The empty span just behind the text. -/
def endSpan (stream : TokenStream) : Span :=
  ⟨stream.size, stream.size⟩

@[simp] theorem advance_pushBack (stream : TokenStream) (token : Token) :
    (stream.pushBack token).advance = (some token, stream) := rfl

@[simp] theorem tokens_pushBack (stream : TokenStream) (token : Token) :
    (stream.pushBack token).tokens = token :: stream.tokens := rfl

theorem advance_of_isAtEnd {stream : TokenStream} (h : stream.isAtEnd) :
    stream.advance = (none, stream) := by
  obtain ⟨tokens, size⟩ := stream
  obtain rfl := List.isEmpty_iff.mp h
  rfl

theorem isAtEnd_or_pushBack (stream : TokenStream) :
    stream.isAtEnd ∨ ∃ token rest, stream = pushBack rest token := by
  obtain ⟨tokens, size⟩ := stream
  cases tokens with
  | nil => exact .inl rfl
  | cons token tokens => exact .inr ⟨token, ⟨tokens, size⟩, rfl⟩

end TokenStream

end Equational
