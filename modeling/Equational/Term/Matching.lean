import Equational.Term.Bindings

/-! # Matching

    A pattern matches a candidate when the candidate is the pattern with its
    variables replaced. The replacement is gathered from left to right as
    bindings. The first occurrence of a variable binds it, to a term of any
    sort. A later occurrence matches the bound term in its turn, as a pattern
    with bindings of its own, against what stands there: a bound term without
    variables matches itself alone, one with variables matches its instances
    too.

    Recursion is on the candidate, since a bound term may be larger than the
    pattern it was bound in.
-/

namespace Equational

namespace Term

/-- Matches a pattern against `candidate`, where `matchHead` does so for an
    application. -/
def matchWith (matchHead : String → String → List Term → Bindings → Option Bindings)
    (bindings : Bindings) (candidate : Term) : Term → Option Bindings
  | .app operation sort patterns => matchHead operation sort patterns bindings
  | .var name _ =>
    match bindings.get? name with
    | none => some (bindings.insert name candidate)
    -- a bound variable, as a pattern, matches anything
    | some (.var _ _) => some bindings
    | some (.app operation sort patterns) =>
      (matchHead operation sort patterns ∅).map fun _ => bindings

mutual
/-- Matches the application of `operation` to `patterns`. The candidate has to
    be an application of the same operation, in the same sort, to as many
    arguments. -/
def matchApplication (operation sort : String) (patterns : List Term) (bindings : Bindings) :
    Term → Option Bindings
  | .app operation' sort' arguments =>
    -- of one length, so that neither list ends before the other
    if sort = sort' ∧ operation = operation' ∧ patterns.length = arguments.length then
      matchArguments patterns bindings arguments
    else none
  | .var _ _ => none
/-- Matches patterns one after the other, each with the bindings of those
    before it. -/
def matchArguments (patterns : List Term) (bindings : Bindings) : List Term → Option Bindings
  | [] => some bindings
  | candidate :: candidates =>
    match patterns with
    | [] => some bindings
    | pattern :: patterns =>
      match matchWith (fun operation sort patterns bindings =>
          matchApplication operation sort patterns bindings candidate)
          bindings candidate pattern with
      | none => none
      | some bindings => matchArguments patterns bindings candidates
end

/-- The bindings under which `pattern` is `candidate`, added to those given. -/
def match? (pattern : Term) (bindings : Bindings) (candidate : Term) : Option Bindings :=
  matchWith (fun operation sort patterns bindings =>
    matchApplication operation sort patterns bindings candidate) bindings candidate pattern

end Term

/-- Matches and keeps the outcome's bindings. A failed match leaves none, not
    even those from before. -/
def Bindings.attempt (bindings : Bindings) (pattern candidate : Term) : Bool × Bindings :=
  match pattern.match? bindings candidate with
  | some bindings => (true, bindings)
  | none => (false, ∅)

end Equational
