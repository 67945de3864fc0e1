import Equational.Signature
import Equational.Term.Literal
import Equational.Token.Scanner

/-! # Reading terms

    The grammar of terms, over tokens, is

        term ::= name | name "(" ")" | name "(" term ("," term)* ")"
        name ::= identifier | qualified identifier

    A **scope** says what names mean: the sort of those that give none, the
    literals, and the signature that terms have to keep to, if any. A name that
    no parenthesis follows is a literal, a constant of the signature, or a
    variable, in this order.

    Errors are found from left to right. A reader gives back the tokens it left,
    together with the fact that it took some.
-/

namespace Equational

/-- What was read, and fewer than `bound` tokens that are left. -/
structure Parsed (bound : Nat) (α : Type) where
  value : α
  rest : List Token
  fewer : rest.length < bound

/-- A reader that takes no token leaves fewer than one more. -/
theorem Parsed.none_taken (tokens : List Token) : tokens.length < tokens.length + 1 :=
  Nat.lt_succ_self _

/-- What names mean where a term is read. -/
structure Scope where
  defaultSort : String
  signature? : Option Signature
  literals : List Literal

/-- Takes a symbol. -/
def Symbol.expect (symbol : Symbol) :
    (tokens : List Token) → Except Error (Parsed tokens.length Unit)
  | [] => .error (.grammar (.endOfInput (.symbol symbol)))
  | token :: rest =>
    if token.lexeme = .symbol symbol then .ok ⟨(), rest, Nat.lt_succ_self _⟩
    else .error (.grammar (.unexpected (.symbol symbol) token))

/-- Takes an identifier, which has some role. -/
def readIdentifier (role : Expected) :
    (tokens : List Token) → Except Error (Parsed tokens.length String)
  | [] => .error (.grammar (.endOfInput role))
  | ⟨.identifier name, _⟩ :: rest => .ok ⟨name, rest, Nat.lt_succ_self _⟩
  | token :: _ => .error (.grammar (.unexpected role token))

/-- Refuses any token that is left. -/
def expectEnd : List Token → Except Error Unit
  | [] => .ok ()
  | token :: _ => .error (.grammar (.unexpected .endOfInput token))

namespace Scope

/-- The name and the sort that a token gives to a term. -/
def resolve (scope : Scope) (token : Token) : Except Error (String × String) :=
  match token.lexeme with
  | .identifier name => .ok (name, scope.defaultSort)
  | .qualified sort name =>
    if scope.signature?.all (·.knows sort) then .ok (name, sort)
    else .error (.signature (.undeclaredSort sort name (some token.span)))
  | _ => .error (.grammar (.unexpected .identifier token))

/-- The term of a name that no parenthesis follows. -/
def terminal (scope : Scope) (name sort : String) (span : Span) : Except Error Term :=
  match Literal.read? scope.literals name sort, scope.signature? with
  | some literal, none => .ok literal
  | some literal, some signature =>
    -- the literal's sort is its own, which need not be the one written
    if signature.knows literal.sort then .ok literal
    else .error (.signature (.undeclaredSort literal.sort name (some span)))
  | none, some signature =>
    -- `zero` is short for `zero()`, in the own sort only
    if sort = signature.name ∧ signature.hasConstant name then .ok (.constant name sort)
    else .ok (.var name sort)
  | none, none => .ok (.var name sort)

/-- The term of a name and its arguments. -/
def application (scope : Scope) (name sort : String) (arguments : List Term) :
    Except Error Term :=
  match scope.signature? with
  | none => .ok (.app name sort arguments)
  | some signature =>
    match signature.checkApplication name sort arguments.length with
    | .ok () => .ok (.app name sort arguments)
    | .error error => .error (.signature error)

mutual
/-- Reads one term. -/
def readTerm (scope : Scope) : (tokens : List Token) → Except Error (Parsed tokens.length Term)
  | [] => .error (.grammar (.endOfInput .identifier))
  | token :: ⟨.symbol .lparen, _⟩ :: inside => do
    -- the name is refused before its arguments, the arity behind them
    let (name, sort) ← scope.resolve token
    let arguments ← readArguments scope inside
    let term ← scope.application name sort arguments.value
    return ⟨term, arguments.rest,
      Nat.lt_trans arguments.fewer (Nat.lt_succ_of_lt (Nat.lt_succ_self _))⟩
  | token :: rest => do
    -- what follows a bare name is left to the caller
    let (name, sort) ← scope.resolve token
    let term ← scope.terminal name sort token.span
    return ⟨term, rest, Nat.lt_succ_self _⟩
termination_by tokens => (tokens.length, 0)
/-- Reads the arguments behind an opening parenthesis, and the closing one. -/
def readArguments (scope : Scope) :
    (tokens : List Token) → Except Error (Parsed tokens.length (List Term))
  | ⟨.symbol .rparen, _⟩ :: rest => .ok ⟨[], rest, Nat.lt_succ_self _⟩
  | tokens => do
    let argument ← readTerm scope tokens
    let more ← readMoreArguments scope argument.rest
    return ⟨argument.value :: more.value, more.rest, Nat.lt_trans more.fewer argument.fewer⟩
termination_by tokens => (tokens.length, 1)
decreasing_by
  · exact Prod.Lex.right _ Nat.zero_lt_one
  · exact Prod.Lex.left _ _ argument.fewer
/-- Reads the arguments behind another one, and the closing parenthesis. -/
def readMoreArguments (scope : Scope) :
    (tokens : List Token) → Except Error (Parsed tokens.length (List Term))
  | ⟨.symbol .rparen, _⟩ :: rest => .ok ⟨[], rest, Nat.lt_succ_self _⟩
  | tokens => do
    let comma ← Symbol.comma.expect tokens
    let argument ← readTerm scope comma.rest
    let more ← readMoreArguments scope argument.rest
    return ⟨argument.value :: more.value, more.rest,
      Nat.lt_trans more.fewer (Nat.lt_trans argument.fewer comma.fewer)⟩
termination_by tokens => (tokens.length, 0)
decreasing_by
  · exact Prod.Lex.left _ _ comma.fewer
  · exact Prod.Lex.left _ _ (Nat.lt_trans argument.fewer comma.fewer)
end

end Scope

/-- The tokens of a text, as the grammar reads them. -/
def readTokens (text : String) : Except Error (List Token) :=
  match Token.tokenize text with
  | .ok tokens => .ok tokens
  | .error error => .error (.lexical error)

namespace Term

/-- The term that all of the tokens make up. -/
def ofTokens (scope : Scope) (tokens : List Token) : Except Error Term := do
  let term ← scope.readTerm tokens
  expectEnd term.rest
  return term.value

/-- The term that a whole text is. It may use any sort and any operation. -/
def parse (text defaultSort : String) (literals : List Literal) : Except Error Term := do
  let tokens ← readTokens text
  ofTokens ⟨defaultSort, none, literals⟩ tokens

end Term

end Equational
