import Equational.Json.Model
import Equational.Proofs.Specification.Validation
import Mathlib

/-! # The model through JSON

    A JSON form is read back as what it was made of. For a rule and a
    specification this goes through their checks again: a rule passes its own
    at any time, and a specification is read as what building it anew gives.

    No other way leads around the checks. A JSON value is read as a specification
    exactly when it holds the parts of one that is well formed (`ofJson_eq_ok_iff`).
-/

namespace Equational

/-- An array of forms is read as the list of what each form is read as. -/
theorem Json.list?_array_map {α β : Type} {toJson : α → Json} {read? : Json → Option β}
    {result : α → β} {items : List α}
    (h : ∀ item ∈ items, read? (toJson item) = some (result item)) :
    Json.list? read? (.array (items.map toJson)) = some (items.map result) := by
  rw [list?, items?, Option.bind_eq_bind, Option.bind_some]
  induction items with
  | nil => rfl
  | cons item items ih =>
    rw [List.forall_mem_cons] at h
    rw [List.map_cons, List.mapM_cons, h.1, ih h.2]
    rfl

theorem Json.list?_strings (texts : List String) :
    Json.list? Json.string? (.array (texts.map .string)) = some texts := by
  have h := Json.list?_array_map
    (fun text (_ : text ∈ texts) => (rfl : (Json.string text).string? = _))
  rw [h, List.map_id']

/-! ## Terms -/

theorem Term.ofJson?_toJson (term : Term) : Term.ofJson? term.toJson = some term := by
  induction term using Term.induct with
  | var name sort =>
    simp [toJson, ofJson?, List.lookup_cons, Json.string?]
  | app operation sort arguments ih =>
    have hall : allOfJson? (allToJson arguments) = some arguments := by
      induction arguments with
      | nil => simp [allToJson, allOfJson?]
      | cons a arguments ihRest =>
        rw [List.forall_mem_cons] at ih
        simp [allToJson, allOfJson?, ih.1, ihRest ih.2]
    simp [toJson, ofJson?, argumentsOf?, listOfJson?, hall, List.lookup_cons, Json.string?]

/-! ## Specifications -/

theorem Operation.ofJson?_toJson (operation : Operation) :
    Operation.ofJson? operation.toJson = some operation := by
  simp [toJson, ofJson?, Json.field?, List.lookup_cons, Json.string?, Json.list?_strings]

/-- The two sides of a rule, without the fact that it has a head. -/
def Rule.parts (rule : Rule) : RuleParts :=
  ⟨rule.pattern, rule.template⟩

theorem RuleParts.ofJson?_toJson (rule : Rule) :
    RuleParts.ofJson? rule.toJson = some rule.parts := by
  simp [Rule.toJson, Rule.parts, ofJson?, Json.field?, List.lookup_cons, Term.ofJson?_toJson]

/-- Sides pass the check when they are those of a rule. -/
theorem RuleParts.check_eq_ok_iff {parts : RuleParts} {rule : Rule} :
    parts.check = .ok rule ↔ parts = rule.parts := by
  obtain ⟨pattern, template⟩ := parts
  rw [check, Rule.ofTerms_eq_ok_iff, Rule.parts, RuleParts.mk.injEq, eq_comm (a := pattern),
    eq_comm (a := template)]

/-- Sides pass the check one by one. -/
theorem RuleParts.mapM_check_eq_ok_iff {parts : List RuleParts} {rules : List Rule} :
    parts.mapM check = .ok rules ↔ parts = rules.map Rule.parts := by
  simp only [mapM_eq_ok_iff, check_eq_ok_iff]
  rw [← List.forall₂_eq_eq_eq, List.forall₂_map_right_iff]

theorem JsonError.ofShape_eq_ok_iff {α : Type} {found : Option α} {value : α} :
    JsonError.ofShape found = .ok value ↔ found = some value := by
  cases found with
  | none => simp [ofShape]
  | some other => simp [ofShape]

theorem JsonError.ofCheck_eq_ok_iff {α : Type} {checked : Except SignatureError α} {value : α} :
    JsonError.ofCheck checked = .ok value ↔ checked = .ok value := by
  cases checked with
  | error error => simp [ofCheck]
  | ok other => simp [ofCheck]

/-- A JSON value is read as a rule when it holds the two sides of it. -/
theorem Rule.ofJson_eq_ok_iff {json : Json} {rule : Rule} :
    Rule.ofJson json = .ok rule ↔ RuleParts.ofJson? json = some rule.parts := by
  simp only [ofJson, bind_eq_ok_iff, JsonError.ofShape_eq_ok_iff, JsonError.ofCheck_eq_ok_iff,
    RuleParts.check_eq_ok_iff, exists_eq_right]

namespace Specification

/-- The parts of a specification, all still to be checked. -/
def parts (specification : Specification) : SpecificationParts :=
  ⟨specification.name, specification.dependencies, specification.operations,
    specification.rules.map Rule.parts⟩

theorem ofJson?_toJson (specification : Specification) :
    SpecificationParts.ofJson? specification.toJson = some specification.parts := by
  have hoperations : Json.list? Operation.ofJson?
      (.array (specification.operations.map Operation.toJson)) = some specification.operations := by
    rw [Json.list?_array_map fun operation _ => operation.ofJson?_toJson, List.map_id']
  have hrules : Json.list? RuleParts.ofJson? (.array (specification.rules.map Rule.toJson)) =
      some (specification.rules.map Rule.parts) :=
    Json.list?_array_map fun rule _ => RuleParts.ofJson?_toJson rule
  simp [toJson, parts, SpecificationParts.ofJson?, Json.field?, List.lookup_cons, Json.string?,
    Json.list?_strings, hoperations, hrules]

/-- Parts pass the check when a specification is built of them. -/
theorem check_eq_ok_iff {parts : SpecificationParts} {specification : Specification} :
    parts.check = .ok specification ↔ parts = specification.parts ∧ specification.WellFormed := by
  simp only [SpecificationParts.check, bind_eq_ok_iff, RuleParts.mapM_check_eq_ok_iff,
    build_eq_ok_iff]
  constructor
  · intro h
    obtain ⟨rules, hrules, rfl, hformed⟩ := h
    exact ⟨by rw [Specification.parts, ← hrules], hformed⟩
  · intro h
    obtain ⟨rfl, hformed⟩ := h
    exact ⟨specification.rules, rfl, rfl, hformed⟩

/-- A JSON value is read as a specification when it holds the parts of it, and the
    specification is well formed. -/
theorem ofJson_eq_ok_iff {json : Json} {specification : Specification} :
    ofJson json = .ok specification ↔
      SpecificationParts.ofJson? json = some specification.parts ∧ specification.WellFormed := by
  simp only [ofJson, bind_eq_ok_iff, JsonError.ofShape_eq_ok_iff, JsonError.ofCheck_eq_ok_iff,
    check_eq_ok_iff]
  constructor
  · intro h
    obtain ⟨_, hjson, rfl, hformed⟩ := h
    exact ⟨hjson, hformed⟩
  · intro h
    exact ⟨specification.parts, h.1, rfl, h.2⟩

/-- Reading the form of a specification is building it anew of its parts. -/
theorem ofJson_toJson (specification : Specification) :
    ofJson specification.toJson =
      JsonError.ofCheck (build specification.name specification.dependencies
        specification.operations specification.rules) := by
  have hrules : (specification.rules.map Rule.parts).mapM RuleParts.check =
      .ok specification.rules := RuleParts.mapM_check_eq_ok_iff.mpr rfl
  rw [ofJson, ofJson?_toJson]
  show JsonError.ofCheck specification.parts.check = _
  rw [SpecificationParts.check, parts, hrules]
  rfl

/-- The form of a specification is read back when its parts are accepted. -/
theorem ofJson_toJson_eq_ok_iff {specification read : Specification} :
    ofJson specification.toJson = .ok read ↔
      build specification.name specification.dependencies specification.operations
        specification.rules = .ok read := by
  rw [ofJson_toJson, JsonError.ofCheck_eq_ok_iff]

end Specification

/-! ## Values -/

theorem Value.ofJson?_toJson (value : Value) : Value.ofJson? value.toJson = some value := by
  simp [toJson, ofJson?, Json.field?, List.lookup_cons, Json.string?, Term.ofJson?_toJson]

/-- Everything is read back from its JSON form, a specification if its parts were
    accepted. What a JSON value is read as has passed the checks, whatever other fields
    it holds: the two sides that it holds make the rule, and a specification is built
    of the parts that it holds, has applications for its patterns, and is read back
    again. -/
theorem json_round_trips :
    ((∀ term : Term, Term.ofJson? term.toJson = some term) ∧
        (∀ operation : Operation, Operation.ofJson? operation.toJson = some operation) ∧
        ∀ value : Value, Value.ofJson? value.toJson = some value) ∧
      (∀ pattern template rule, Rule.ofTerms pattern template = .ok rule →
        Rule.ofJson rule.toJson = .ok rule) ∧
      (∀ name dependencies operations rules specification,
        Specification.build name dependencies operations rules = .ok specification →
          Specification.ofJson specification.toJson = .ok specification) ∧
      (∀ json rule, Rule.ofJson json = .ok rule →
        RuleParts.ofJson? json = some rule.parts ∧
          Rule.ofTerms rule.pattern rule.template = .ok rule) ∧
      ∀ json specification, Specification.ofJson json = .ok specification →
        SpecificationParts.ofJson? json = some specification.parts ∧
          (∀ rule ∈ specification.rules, rule.pattern.isApplication = true) ∧
          Specification.build specification.name specification.dependencies
            specification.operations specification.rules = .ok specification ∧
          Specification.ofJson specification.toJson = .ok specification := by
  have hback : ∀ specification : Specification, specification.WellFormed →
      Specification.ofJson specification.toJson = .ok specification := by
    intro specification hformed
    exact Specification.ofJson_eq_ok_iff.mpr ⟨specification.ofJson?_toJson, hformed⟩
  refine ⟨⟨Term.ofJson?_toJson, Operation.ofJson?_toJson, Value.ofJson?_toJson⟩, ?_, ?_, ?_, ?_⟩
  · intro pattern template rule _
    exact Rule.ofJson_eq_ok_iff.mpr (RuleParts.ofJson?_toJson rule)
  · intro name dependencies operations rules specification hbuild
    exact hback specification (Specification.build_eq_ok_iff.mp hbuild).2
  · intro json rule h
    exact ⟨Rule.ofJson_eq_ok_iff.mp h, Rule.ofTerms_eq_ok_iff.mpr ⟨rfl, rfl⟩⟩
  · intro json specification h
    obtain ⟨hjson, hformed⟩ := Specification.ofJson_eq_ok_iff.mp h
    refine ⟨hjson, fun rule _ => rule.headed, ?_, hback specification hformed⟩
    exact Specification.build_eq_ok_iff.mpr ⟨rfl, hformed⟩

/-- A set with a rule, in a JSON value that has its fields in another order and a
    field more, on both levels. What is read is written in the usual order. -/
theorem reordered_form_read :
    let empty : Term := .constant "empty" "Set"
    let rule : Rule := ⟨.app "remove" "Set" [empty], empty, rfl⟩
    let specification : Specification :=
      ⟨⟨"Set", [], [⟨"empty", [], "Set"⟩, ⟨"remove", ["Set"], "Set"⟩]⟩, [rule]⟩
    let equation : Json :=
      .object [("template", empty.toJson), ("line", .natural 7), ("pattern", rule.pattern.toJson)]
    let json : Json := .object [("axioms", .array [equation]), ("comment", .null),
      ("operations", .array (specification.operations.map Operation.toJson)),
      ("dependency_sorts", .array []), ("name", .string "Set")]
    Rule.ofTerms rule.pattern empty = .ok rule ∧ Rule.ofJson rule.toJson = .ok rule ∧
      Rule.ofJson equation = .ok rule ∧ RuleParts.ofJson? equation = some rule.parts ∧
      Specification.ofJson json = .ok specification ∧
      Specification.build "Set" [] specification.operations [rule] = .ok specification ∧
      Specification.ofJson specification.toJson = .ok specification := by
  intro empty rule specification equation json
  obtain ⟨-, hrule, hbuilt, hequation, hjson⟩ := json_round_trips
  have hterms : Rule.ofTerms rule.pattern empty = .ok rule := rfl
  have hreadRule : Rule.ofJson equation = .ok rule := by cbv
  have hread : Specification.ofJson json = .ok specification := by cbv
  obtain ⟨hsides, -⟩ := hequation equation rule hreadRule
  obtain ⟨-, -, hbuild, -⟩ := hjson json specification hread
  exact ⟨hterms, hrule _ _ rule hterms, hreadRule, hsides, hread, hbuild,
    hbuilt _ _ _ _ specification hbuild⟩

end Equational
