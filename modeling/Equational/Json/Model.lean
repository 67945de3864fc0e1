import Equational.Environment.Call
import Equational.Json.Basic

/-! # The model as JSON

    Terms, rules, specifications and values have a JSON form. Reading ignores
    fields that it does not know. It fails in one of two ways: the value is of
    another **shape**, or it has the shape of a rule or a specification that is
    not well formed. A rule or a specification is only ever read through its
    checks.
-/

namespace Equational

/-- Why a JSON value is not read. -/
inductive JsonError where
  | shape
  | invalid (error : SignatureError)
deriving DecidableEq, Repr

/-- The value, which has to be there. -/
def JsonError.ofShape {α : Type} : Option α → Except JsonError α
  | some value => .ok value
  | none => .error .shape

/-- The value, which has to be well formed. -/
def JsonError.ofCheck {α : Type} : Except SignatureError α → Except JsonError α
  | .ok value => .ok value
  | .error error => .error (.invalid error)

/-! ## Terms -/

namespace Term

mutual
/-- The JSON form of a term. -/
def toJson : Term → Json
  | .app operation sort arguments =>
    .object [("kind", .string "application"), ("operation", .string operation),
      ("sort", .string sort), ("arguments", .array (allToJson arguments))]
  | .var name sort =>
    .object [("kind", .string "variable"), ("name", .string name), ("sort", .string sort)]
/-- The companion of `toJson` on argument lists. -/
def allToJson : List Term → List Json
  | [] => []
  | t :: ts => toJson t :: allToJson ts
end

mutual
/-- The term of a JSON value. -/
def ofJson? : Json → Option Term
  | .object fields =>
    match (fields.lookup "kind").bind Json.string?, (fields.lookup "sort").bind Json.string? with
    | some kind, some sort =>
      if kind = "application" then
        match (fields.lookup "operation").bind Json.string?, argumentsOf? fields with
        | some operation, some arguments => some (.app operation sort arguments)
        | _, _ => none
      else if kind = "variable" then
        match (fields.lookup "name").bind Json.string? with
        | some name => some (.var name sort)
        | none => none
      else none
    | _, _ => none
  | _ => none
/-- The terms in the field for arguments. -/
def argumentsOf? : List (String × Json) → Option (List Term)
  | [] => none
  | (name, value) :: rest => if name = "arguments" then listOfJson? value else argumentsOf? rest
/-- The terms in an array. -/
def listOfJson? : Json → Option (List Term)
  | .array items => allOfJson? items
  | _ => none
/-- The companion of `ofJson?` on lists. -/
def allOfJson? : List Json → Option (List Term)
  | [] => some []
  | item :: items =>
    match ofJson? item, allOfJson? items with
    | some t, some ts => some (t :: ts)
    | _, _ => none
end

end Term

/-! ## Specifications -/

namespace Operation

/-- The JSON form of an operation. -/
def toJson (operation : Operation) : Json :=
  .object [("name", .string operation.name),
    ("argument_sorts", .array (operation.argumentSorts.map .string)),
    ("result_sort", .string operation.resultSort)]

/-- The operation of a JSON value. -/
def ofJson? (json : Json) : Option Operation := do
  let name ← (json.field? "name").bind Json.string?
  let argumentSorts ← (json.field? "argument_sorts").bind (Json.list? Json.string?)
  let resultSort ← (json.field? "result_sort").bind Json.string?
  return ⟨name, argumentSorts, resultSort⟩

end Operation

/-- The two sides of a rule that is still to be checked. -/
structure RuleParts where
  pattern : Term
  template : Term
deriving DecidableEq, Repr

namespace RuleParts

/-- The two sides in a JSON value. -/
def ofJson? (json : Json) : Option RuleParts := do
  let pattern ← (json.field? "pattern").bind Term.ofJson?
  let template ← (json.field? "template").bind Term.ofJson?
  return ⟨pattern, template⟩

/-- The rule of two sides, unless its pattern is a variable. -/
def check (parts : RuleParts) : Except SignatureError Rule :=
  Rule.ofTerms parts.pattern parts.template

end RuleParts

namespace Rule

/-- The JSON form of a rule. -/
def toJson (rule : Rule) : Json :=
  .object [("pattern", rule.pattern.toJson), ("template", rule.template.toJson)]

/-- The rule of a JSON value, if its sides make one. -/
def ofJson (json : Json) : Except JsonError Rule := do
  let parts ← JsonError.ofShape (RuleParts.ofJson? json)
  JsonError.ofCheck parts.check

end Rule

/-- The parts of a specification that is still to be checked. -/
structure SpecificationParts where
  name : String
  dependencies : List String
  operations : List Operation
  rules : List RuleParts
deriving DecidableEq, Repr

namespace SpecificationParts

/-- The parts in a JSON value. -/
def ofJson? (json : Json) : Option SpecificationParts := do
  let name ← (json.field? "name").bind Json.string?
  let dependencies ← (json.field? "dependency_sorts").bind (Json.list? Json.string?)
  let operations ← (json.field? "operations").bind (Json.list? Operation.ofJson?)
  let rules ← (json.field? "axioms").bind (Json.list? RuleParts.ofJson?)
  return ⟨name, dependencies, operations, rules⟩

/-- The specification of its parts. Patterns are checked first, in the order of
    the rules, then the operations, then the terms of the rules. -/
def check (parts : SpecificationParts) : Except SignatureError Specification := do
  let rules ← parts.rules.mapM RuleParts.check
  Specification.build parts.name parts.dependencies parts.operations rules

end SpecificationParts

namespace Specification

/-- The JSON form of a specification. -/
def toJson (specification : Specification) : Json :=
  .object [("name", .string specification.name),
    ("dependency_sorts", .array (specification.dependencies.map .string)),
    ("operations", .array (specification.operations.map Operation.toJson)),
    ("axioms", .array (specification.rules.map Rule.toJson))]

/-- The specification of a JSON value, if its parts make one. -/
def ofJson (json : Json) : Except JsonError Specification := do
  let parts ← JsonError.ofShape (SpecificationParts.ofJson? json)
  JsonError.ofCheck parts.check

end Specification

/-! ## Values -/

namespace Value

/-- The JSON form of a value. -/
def toJson (value : Value) : Json :=
  .object [("sort", .string value.sort), ("term", value.term.toJson)]

/-- The value of a JSON value. Whether its term is normal is not checked. -/
def ofJson? (json : Json) : Option Value := do
  let sort ← (json.field? "sort").bind Json.string?
  let term ← (json.field? "term").bind Term.ofJson?
  return ⟨sort, term⟩

end Value

end Equational
