import Equational.Text.Span

/-! # Tokens

    Specification text consists of five symbols and of words. A word is a plain
    identifier, an identifier qualified by its sort (`Number:zero`), or a
    keyword, which is any word that ends in a colon (`type:`). The kind of a
    word, with its text, is its **lexeme**; a **token** is a lexeme and the
    span it was read from.
-/

namespace Equational

/-- The marks that stand for themselves. -/
inductive Symbol where
  | lparen
  | rparen
  | comma
  | arrow
  | equal
deriving DecidableEq, Repr

/-- A symbol as it is written. -/
def Symbol.text : Symbol → String
  | .lparen => "("
  | .rparen => ")"
  | .comma => ","
  | .arrow => "->"
  | .equal => "="

/-- What a token says. -/
inductive Lexeme where
  | symbol (symbol : Symbol)
  | identifier (name : String)
  | qualified (sort name : String)
  | keyword (word : String)
deriving DecidableEq, Repr

namespace Lexeme

/-- The text that a lexeme is read from. -/
def text : Lexeme → String
  | .symbol mark => mark.text
  | .identifier name => name
  | .qualified sort name => sort ++ ":" ++ name
  | .keyword word => word

/-- The class of a lexeme as messages name it. -/
def describe : Lexeme → String
  | .symbol mark => "'" ++ mark.text ++ "'"
  | .identifier _ => "identifier"
  | .qualified _ _ => "qualified identifier"
  | .keyword _ => "keyword"

end Lexeme

/-- A lexeme and where it stands in the text. -/
structure Token where
  lexeme : Lexeme
  span : Span
deriving DecidableEq, Repr

namespace Token

/-- The text of the token's lexeme. -/
def text (token : Token) : String :=
  token.lexeme.text

end Token

end Equational
