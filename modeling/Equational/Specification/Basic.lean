import Equational.Signature
import Equational.Term.Matching

/-! # Specifications

    A **rule** is an equation that is used from left to right: what its pattern
    matches becomes its template under the same bindings. A **specification**
    is a signature with rules for its operations. Rules are tried in their
    order, and the first that matches is the one that applies.
-/

namespace Equational

/-- An equation from `pattern` to `template`. The pattern is an application,
    since a variable would match everything. -/
structure Rule where
  pattern : Term
  template : Term
  headed : pattern.isApplication = true
deriving DecidableEq, Repr

namespace Rule

/-- The rule of two terms, unless its pattern is a variable. -/
def ofTerms : Term → Term → Except SignatureError Rule
  | .app operation sort arguments, template => .ok ⟨.app operation sort arguments, template, rfl⟩
  | .var name sort, _ => .error (.variablePattern name sort)

/-- What a term becomes by the rule; `none` if the pattern does not match. A
    variable of the template that the pattern lacks is an error. -/
def rewrite? (rule : Rule) (term : Term) : Except RewriteError (Option Term) :=
  match rule.pattern.match? ∅ term with
  | some bindings => (rule.template.substitute bindings).map some
  | none => .ok none

/-- What a term becomes by the first of several rules that matches it. -/
def rewriteFirst? (term : Term) : List Rule → Except RewriteError (Option Term)
  | [] => .ok none
  | rule :: rules =>
    match rule.rewrite? term with
    | .ok none => rewriteFirst? term rules
    -- a rule that matches decides, even when its template cannot be filled in
    | outcome => outcome

/-- The rule as an equation, with one sort left out. -/
def text (rule : Rule) (sort : String) : String :=
  rule.pattern.render (some sort) ++ " = " ++ rule.template.render (some sort)

end Rule

/-- A signature and the rules for its operations. -/
structure Specification extends Signature where
  rules : List Rule
deriving DecidableEq, Repr

namespace Specification

/-- Checks both sides of each rule in turn. -/
def checkRules (signature : Signature) : List Rule → Except SignatureError Unit
  | [] => .ok ()
  | rule :: rules => do
    signature.checkTerm rule.pattern
    signature.checkTerm rule.template
    checkRules signature rules

/-- The specification of its parts: first its operations are declared, then its
    rules are checked. -/
def build (name : String) (dependencies : List String) (operations : List Operation)
    (rules : List Rule) : Except SignatureError Specification := do
  let signature ← Signature.build name dependencies operations
  checkRules signature rules
  return ⟨signature, rules⟩

/-- What a term becomes by the first rule that matches it. -/
def step? (specification : Specification) (term : Term) : Except RewriteError (Option Term) :=
  Rule.rewriteFirst? term specification.rules

/-- The specification as text that can be read back. Its own sort is left out
    of the rules. -/
def text (specification : Specification) : String :=
  "type: " ++ specification.name ++ "\n" ++
  "sorts: " ++ commaSeparated specification.dependencies ++ "\n" ++
  "operations:\n" ++
  String.join (specification.operations.map fun operation => "\t" ++ operation.text ++ "\n") ++
  "axioms:\n" ++
  String.join (specification.rules.map fun rule => "\t" ++ rule.text specification.name ++ "\n")

end Specification

end Equational
