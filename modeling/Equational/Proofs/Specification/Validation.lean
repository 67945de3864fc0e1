import Equational.Proofs.Except
import Equational.Proofs.Term.Subterm
import Equational.Specification.Basic
import Mathlib.Data.List.Nodup

/-! # Well-formed signatures and specifications

    A signature is **well formed** when its operations have distinct names and
    use known sorts only. It **allows** a term by the term's root alone: the
    sort is known, and an application in the own sort is declared with as many
    arguments. A specification is well formed when its signature is, and allows
    every subterm of its rules.

    The checks accept what is well formed, all of it and nothing else, and give
    the parts back as they are.
-/

namespace Equational

namespace Signature

variable {signature : Signature}

/-! ## Declaring operations -/

/-- The sorts of an operation are known. -/
def UsesKnownSorts (signature : Signature) (operation : Operation) : Prop :=
  (∀ sort ∈ operation.argumentSorts, signature.knows sort = true) ∧
    signature.knows operation.resultSort = true

/-- Operations have distinct names and use known sorts. -/
structure WellFormed (signature : Signature) : Prop where
  distinct : (signature.operations.map Operation.name).Nodup
  known : ∀ operation ∈ signature.operations, signature.UsesKnownSorts operation

theorem isSome_operation?_iff {name : String} :
    (signature.operation? name).isSome = true ↔ name ∈ signature.operations.map Operation.name := by
  simp [operation?, List.find?_isSome]

/-- A declaration is accepted when its name is new and its sorts are known. -/
theorem declare_eq_ok_iff {operation : Operation} {extended : Signature} :
    signature.declare operation = .ok extended ↔
      operation.name ∉ signature.operations.map Operation.name ∧
        signature.UsesKnownSorts operation ∧
        extended = { signature with operations := signature.operations ++ [operation] } := by
  unfold declare
  by_cases hname : operation.name ∈ signature.operations.map Operation.name
  · rw [if_pos (isSome_operation?_iff.mpr hname)]
    simp only [reduceCtorEq, false_iff, not_and]
    exact fun hnew => absurd hname hnew
  · rw [if_neg (fun hsome => hname (isSome_operation?_iff.mp hsome))]
    cases hsorts : operation.argumentSorts.find? fun sort => !signature.knows sort with
    | some sort =>
      have hunknown : signature.knows sort = false := by simpa using List.find?_some hsorts
      have hmem : sort ∈ operation.argumentSorts := List.mem_of_find?_eq_some hsorts
      simp only [reduceCtorEq, false_iff]
      intro h
      obtain ⟨-, ⟨hknown, -⟩, -⟩ := h
      rw [hknown sort hmem] at hunknown
      contradiction
    | none =>
      have hknown : ∀ sort ∈ operation.argumentSorts, signature.knows sort = true := by
        simpa using hsorts
      by_cases hresult : signature.knows operation.resultSort = true
      · rw [if_pos hresult, Except.ok.injEq, eq_comm]
        exact ⟨fun h => ⟨hname, ⟨hknown, hresult⟩, h⟩, fun h => h.2.2⟩
      · rw [if_neg hresult]
        simp only [reduceCtorEq, false_iff]
        exact fun h => hresult h.2.1.2

/-- Declarations are accepted one by one, and are kept in their order. -/
theorem foldlM_declare_eq_ok_iff {operations : List Operation} {extended : Signature} :
    operations.foldlM declare signature = .ok extended ↔
      extended = { signature with operations := signature.operations ++ operations } ∧
        (operations.map Operation.name).Nodup ∧
        (∀ operation ∈ operations, operation.name ∉ signature.operations.map Operation.name ∧
          signature.UsesKnownSorts operation) := by
  induction operations generalizing signature with
  | nil =>
    simp only [List.foldlM_nil, List.append_nil, List.map_nil, List.nodup_nil, List.not_mem_nil]
    constructor
    · intro h
      cases h
      exact ⟨rfl, trivial, by simp⟩
    · intro h
      obtain ⟨rfl, -, -⟩ := h
      rfl
  | cons operation operations ih =>
    rw [List.foldlM_cons, bind_eq_ok_iff]
    constructor
    · intro h
      obtain ⟨declared, hdeclare, hrest⟩ := h
      obtain ⟨hnew, hsorts, rfl⟩ := declare_eq_ok_iff.mp hdeclare
      obtain ⟨rfl, hdistinct, heach⟩ := ih.mp hrest
      refine ⟨by simp, ?_, ?_⟩
      · -- a later operation of the same name would have been refused
        rw [List.map_cons, List.nodup_cons]
        refine ⟨?_, hdistinct⟩
        intro hmem
        obtain ⟨later, hlater, hname⟩ := List.mem_map.mp hmem
        exact (heach later hlater).1 (by simp [hname])
      · intro other hother
        rcases List.mem_cons.mp hother with rfl | hother
        · exact ⟨hnew, hsorts⟩
        · obtain ⟨hname, hknown⟩ := heach other hother
          exact ⟨fun h => hname (by simp [List.mem_map.mp h]), hknown⟩
    · intro h
      obtain ⟨rfl, hdistinct, heach⟩ := h
      rw [List.map_cons, List.nodup_cons] at hdistinct
      obtain ⟨hnew, hsorts⟩ := heach operation List.mem_cons_self
      refine ⟨_, declare_eq_ok_iff.mpr ⟨hnew, hsorts, rfl⟩, ?_⟩
      refine ih.mpr ⟨by simp, hdistinct.2, ?_⟩
      intro other hother
      obtain ⟨hname, hknown⟩ := heach other (List.mem_cons_of_mem _ hother)
      refine ⟨?_, hknown⟩
      -- the name is neither that of an earlier operation nor the one just declared
      rw [List.map_append, List.mem_append, not_or]
      refine ⟨hname, ?_⟩
      intro hsame
      have heq : other.name = operation.name := by simpa using hsame
      exact hdistinct.1 (heq ▸ List.mem_map_of_mem hother)

/-- A signature is built of parts that are well formed together. -/
theorem build_eq_ok_iff {name : String} {dependencies : List String}
    {operations : List Operation} {built : Signature} :
    build name dependencies operations = .ok built ↔
      built = ⟨name, dependencies, operations⟩ ∧ built.WellFormed := by
  -- from the empty signature all names are new
  rw [build, foldlM_declare_eq_ok_iff]
  constructor
  · intro h
    obtain ⟨rfl, hdistinct, heach⟩ := h
    exact ⟨by simp, by simpa using hdistinct, fun operation hmem =>
      (heach operation (by simpa using hmem)).2⟩
  · intro h
    obtain ⟨rfl, hdistinct, hknown⟩ := h
    exact ⟨by simp, hdistinct, fun operation hmem => ⟨by simp, hknown operation hmem⟩⟩

/-! ## Checking terms -/

/-- Some operation has the name and the number of arguments. -/
def Declares (signature : Signature) (name : String) (count : Nat) : Prop :=
  ∃ operation ∈ signature.operations, operation.name = name ∧ operation.arity = count

/-- The root of a term keeps to the signature. -/
structure Allows (signature : Signature) (term : Term) : Prop where
  known : signature.knows term.sort = true
  declared : term.isApplication = true → term.sort = signature.name →
    signature.Declares term.name term.arguments.length

/-- Where names are distinct, an operation is found by its name. -/
theorem operation?_eq_some_iff (distinct : (signature.operations.map Operation.name).Nodup)
    {name : String} {operation : Operation} :
    signature.operation? name = some operation ↔
      operation ∈ signature.operations ∧ operation.name = name := by
  constructor
  · intro h
    exact ⟨List.mem_of_find?_eq_some h, by simpa using List.find?_some h⟩
  · intro h
    obtain ⟨hmem, rfl⟩ := h
    have hsome : (signature.operation? operation.name).isSome = true :=
      isSome_operation?_iff.mpr (List.mem_map_of_mem hmem)
    -- another one may be found first, but then of the same name
    obtain ⟨found, hfound⟩ := Option.isSome_iff_exists.mp hsome
    have hname : found.name = operation.name := by simpa using List.find?_some hfound
    rw [hfound, List.inj_on_of_nodup_map distinct (List.mem_of_find?_eq_some hfound) hmem hname]

theorem hasConstant_iff (distinct : (signature.operations.map Operation.name).Nodup)
    {name : String} : signature.hasConstant name = true ↔ signature.Declares name 0 := by
  simp only [hasConstant, Option.any_eq_true, beq_iff_eq, operation?_eq_some_iff distinct, Declares,
    and_assoc]

theorem checkApplication_eq_ok_iff (distinct : (signature.operations.map Operation.name).Nodup)
    {operation sort : String} {count : Nat} :
    signature.checkApplication operation sort count = .ok () ↔
      (sort = signature.name → signature.Declares operation count) := by
  unfold checkApplication
  by_cases hsort : sort = signature.name
  · rw [if_pos hsort]
    have hdeclares : signature.Declares operation count ↔
        ∃ declared, signature.operation? operation = some declared ∧ declared.arity = count := by
      simp only [operation?_eq_some_iff distinct, Declares, and_assoc]
    rw [hdeclares]
    cases signature.operation? operation with
    | none => simp [hsort]
    | some declared =>
      by_cases harity : declared.arity = count
      · simp [harity]
      · simp [harity, hsort]
  · simp [hsort]

theorem checkSort_eq_ok_iff {sort name : String} :
    signature.checkSort sort name = .ok () ↔ signature.knows sort = true := by
  by_cases h : signature.knows sort = true
  · simp [checkSort, h]
  · simp [checkSort, h]

/-- The check of a term accepts those whose subterms are all allowed. -/
theorem checkTerm_eq_ok_iff (distinct : (signature.operations.map Operation.name).Nodup)
    {term : Term} :
    signature.checkTerm term = .ok () ↔ ∀ u, u.Subterm term → signature.Allows u := by
  induction term using Term.induct with
  | var name sort =>
    rw [checkTerm, checkSort_eq_ok_iff, Term.forall_subterm_var]
    exact ⟨fun h => ⟨h, by simp [Term.isApplication]⟩, fun h => h.known⟩
  | app operation sort arguments ih =>
    have hall : signature.checkTerms arguments = .ok () ↔
        ∀ a ∈ arguments, ∀ u, u.Subterm a → signature.Allows u := by
      induction arguments with
      | nil => simp [checkTerms]
      | cons a arguments ihRest =>
        rw [checkTerms, check_bind_eq_ok_iff, List.forall_mem_cons, ← ih a List.mem_cons_self,
          ← ihRest fun b hb => ih b (List.mem_cons_of_mem _ hb)]
    have hroot : signature.Allows (.app operation sort arguments) ↔
        signature.knows sort = true ∧
          (sort = signature.name → signature.Declares operation arguments.length) :=
      ⟨fun h => ⟨h.known, h.declared rfl⟩, fun h => ⟨h.1, fun _ => h.2⟩⟩
    rw [checkTerm, check_bind_eq_ok_iff, check_bind_eq_ok_iff, checkSort_eq_ok_iff,
      checkApplication_eq_ok_iff distinct, hall, Term.forall_subterm_app, hroot, and_assoc]

end Signature

/-! ## Specifications -/

/-- Two terms make a rule when the first is an application. -/
theorem Rule.ofTerms_eq_ok_iff {pattern template : Term} {rule : Rule} :
    Rule.ofTerms pattern template = .ok rule ↔
      rule.pattern = pattern ∧ rule.template = template := by
  obtain ⟨pattern', template', headed⟩ := rule
  cases pattern with
  | var name sort =>
    simp only [Rule.ofTerms, reduceCtorEq, false_iff]
    intro h
    obtain ⟨rfl, -⟩ := h
    simp [Term.isApplication] at headed
  | app operation sort arguments =>
    constructor
    · intro h
      cases h
      exact ⟨rfl, rfl⟩
    · intro h
      obtain ⟨rfl, rfl⟩ := h
      rfl

/-- A term stands in one of the two sides. -/
def Rule.Contains (rule : Rule) (u : Term) : Prop :=
  u.Subterm rule.pattern ∨ u.Subterm rule.template

namespace Specification

/-- A term stands in one of the rules. -/
def Contains (specification : Specification) (u : Term) : Prop :=
  ∃ rule ∈ specification.rules, rule.Contains u

/-- The signature is well formed and allows all that stands in the rules. -/
structure WellFormed (specification : Specification) : Prop where
  signature : specification.toSignature.WellFormed
  allows : ∀ u, specification.Contains u → specification.toSignature.Allows u

theorem checkRules_eq_ok_iff {signature : Signature}
    (distinct : (signature.operations.map Operation.name).Nodup) {rules : List Rule} :
    checkRules signature rules = .ok () ↔
      ∀ rule ∈ rules, ∀ u, rule.Contains u → signature.Allows u := by
  induction rules with
  | nil => simp [checkRules]
  | cons rule rules ih =>
    have hrule : (∀ u, rule.Contains u → signature.Allows u) ↔
        signature.checkTerm rule.pattern = .ok () ∧ signature.checkTerm rule.template = .ok () := by
      simp only [Signature.checkTerm_eq_ok_iff distinct, Rule.Contains, or_imp, forall_and]
    rw [checkRules, check_bind_eq_ok_iff, check_bind_eq_ok_iff, List.forall_mem_cons, hrule, ← ih,
      and_assoc]

/-- A specification is built of parts that are well formed together. -/
theorem build_eq_ok_iff {name : String} {dependencies : List String}
    {operations : List Operation} {rules : List Rule} {built : Specification} :
    build name dependencies operations rules = .ok built ↔
      built = ⟨⟨name, dependencies, operations⟩, rules⟩ ∧ built.WellFormed := by
  rw [build, bind_eq_ok_iff]
  constructor
  · intro h
    obtain ⟨signature, hsignature, h⟩ := h
    obtain ⟨rfl, hformed⟩ := Signature.build_eq_ok_iff.mp hsignature
    obtain ⟨hrules, h⟩ := check_bind_eq_ok_iff.mp h
    cases h
    have hallows := (checkRules_eq_ok_iff hformed.distinct).mp hrules
    exact ⟨rfl, hformed, fun u ⟨rule, hrule, hu⟩ => hallows rule hrule u hu⟩
  · intro h
    obtain ⟨rfl, hformed, hallows⟩ := h
    have hrules := (checkRules_eq_ok_iff hformed.distinct).mpr
      fun rule hrule u hu => hallows u ⟨rule, hrule, hu⟩
    exact ⟨_, Signature.build_eq_ok_iff.mpr ⟨rfl, hformed⟩,
      check_bind_eq_ok_iff.mpr ⟨hrules, rfl⟩⟩

/-- The parts of a specification are accepted when it is well formed. -/
theorem exists_build_iff (specification : Specification) :
    (∃ built, build specification.name specification.dependencies specification.operations
      specification.rules = .ok built) ↔ specification.WellFormed := by
  constructor
  · intro h
    obtain ⟨built, h⟩ := h
    obtain ⟨rfl, hformed⟩ := build_eq_ok_iff.mp h
    exact hformed
  · intro hformed
    exact ⟨specification, build_eq_ok_iff.mpr ⟨rfl, hformed⟩⟩

end Specification

end Equational
