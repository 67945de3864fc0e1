import Equational.Specification.Basic
import Equational.Term.Parser

/-! # Reading specifications

    The grammar of specifications, over tokens, is

        specification ::= "type:" identifier "sorts:" sorts
                          "operations:" operation* "axioms:" rule*
        sorts         ::= (identifier ("," identifier)*)?
        operation     ::= identifier "(" sorts ")" "->" identifier
        rule          ::= term "=" term

    The operations reach up to the next keyword, whichever it is, and so do the
    rules. The signature is built when all operations are read, and the terms of
    the rules are read under it.
-/

namespace Equational

/-- Takes the keyword of a heading. -/
def Heading.expect (heading : Heading) : List Token → Except Error (List Token)
  | [] => .error (.grammar (.endOfInput (.heading heading)))
  | token :: rest =>
    if token.lexeme = .keyword heading.word then .ok rest
    else .error (.grammar (.unexpected (.heading heading) token))

/-! ## Operations -/

/-- Reads the sorts behind another one, each with the comma before it. -/
def readMoreSorts : (tokens : List Token) → Except Error (Parsed (tokens.length + 1) (List String))
  | ⟨.symbol .comma, _⟩ :: ⟨.identifier sort, _⟩ :: rest => do
    let more ← readMoreSorts rest
    return ⟨sort :: more.value, more.rest, Nat.lt_trans more.fewer (by simp)⟩
  | ⟨.symbol .comma, _⟩ :: token :: _ => .error (.grammar (.unexpected .sort token))
  | [⟨.symbol .comma, _⟩] => .error (.grammar (.endOfInput .sort))
  | tokens => .ok ⟨[], tokens, Parsed.none_taken tokens⟩

/-- Reads a list of sorts, which may be empty. -/
def readSorts : (tokens : List Token) → Except Error (Parsed (tokens.length + 1) (List String))
  | ⟨.identifier sort, _⟩ :: rest => do
    let more ← readMoreSorts rest
    return ⟨sort :: more.value, more.rest, Nat.lt_succ_of_lt more.fewer⟩
  | tokens => .ok ⟨[], tokens, Parsed.none_taken tokens⟩

/-- Reads the declaration of one operation. -/
def readOperation (tokens : List Token) : Except Error (Parsed tokens.length Operation) := do
  let name ← readIdentifier .operationName tokens
  let opening ← Symbol.lparen.expect name.rest
  let arguments ← readSorts opening.rest
  let closing ← Symbol.rparen.expect arguments.rest
  let arrow ← Symbol.arrow.expect closing.rest
  let result ← readIdentifier .resultSort arrow.rest
  return ⟨⟨name.value, arguments.value, result.value⟩, result.rest, by
    have := name.fewer; have := opening.fewer; have := arguments.fewer
    have := closing.fewer; have := arrow.fewer; have := result.fewer
    omega⟩

/-- Reads declarations up to the next keyword, which has to come. -/
def readOperations (tokens : List Token) : Except Error (List Operation × List Token) :=
  match tokens with
  | [] => .error (.grammar (.endOfInput (.heading .axioms)))
  -- any keyword ends the section, the next heading says whether it is the right one
  | ⟨.keyword word, span⟩ :: rest => .ok ([], ⟨.keyword word, span⟩ :: rest)
  | tokens => do
    let operation ← readOperation tokens
    let (operations, rest) ← readOperations operation.rest
    return (operation.value :: operations, rest)
termination_by tokens.length
decreasing_by exact operation.fewer

/-! ## Rules -/

/-- Reads one rule. -/
def Scope.readRule (scope : Scope) (tokens : List Token) :
    Except Error (Parsed tokens.length Rule) := do
  let pattern ← scope.readTerm tokens
  let equal ← Symbol.equal.expect pattern.rest
  let template ← scope.readTerm equal.rest
  match Rule.ofTerms pattern.value template.value with
  | .error error => .error (.signature error)
  | .ok rule =>
    return ⟨rule, template.rest,
      Nat.lt_trans template.fewer (Nat.lt_trans equal.fewer pattern.fewer)⟩

/-- Reads rules up to the next keyword or the end. -/
def Scope.readRules (scope : Scope) (tokens : List Token) :
    Except Error (List Rule × List Token) :=
  match tokens with
  | [] => .ok ([], [])
  | ⟨.keyword word, span⟩ :: rest => .ok ([], ⟨.keyword word, span⟩ :: rest)
  | tokens => do
    let rule ← scope.readRule tokens
    let (rules, rest) ← readRules scope rule.rest
    return (rule.value :: rules, rest)
termination_by tokens.length
decreasing_by exact rule.fewer

/-! ## Specifications -/

namespace Specification

/-- The specification that all of the tokens make up. -/
def ofTokens (literals : List Literal) (tokens : List Token) : Except Error Specification := do
  let afterType ← Heading.type.expect tokens
  let name ← readIdentifier .sortName afterType
  let afterSorts ← Heading.sorts.expect name.rest
  let dependencies ← readSorts afterSorts
  let afterOperations ← Heading.operations.expect dependencies.rest
  let (operations, afterSection) ← readOperations afterOperations
  -- a bad declaration is reported before a missing heading of the axioms
  match Signature.build name.value dependencies.value operations with
  | .error error => .error (.signature error)
  | .ok signature =>
    let afterAxioms ← Heading.axioms.expect afterSection
    let (rules, rest) ← Scope.readRules ⟨signature.name, some signature, literals⟩ afterAxioms
    expectEnd rest
    return ⟨signature, rules⟩

/-- The specification that a whole text is. -/
def parse (text : String) (literals : List Literal) : Except Error Specification := do
  let tokens ← readTokens text
  ofTokens literals tokens

end Specification

end Equational
