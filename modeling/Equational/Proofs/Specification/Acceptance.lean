import Equational.Proofs.Specification.Validation

/-! # What is refused when a specification is built

    Building a specification accepts what is well formed and keeps it as it is. A
    declaration **offends** a signature by one error: a name that is taken comes
    before a sort of an argument that is not known, of these the first counts, and
    they come before a sort of the result that is not known.

    Where the operations are at fault, the error is that of the first declaration
    that offends the ones before it. The rules are not looked at then.
-/

namespace Equational

namespace Signature

variable {signature : Signature}

/-! ## Declarations at fault -/

/-- The error that a declaration is refused with. -/
inductive Offends (signature : Signature) (operation : Operation) : SignatureError → Prop where
  | duplicate : operation.name ∈ signature.operations.map Operation.name →
      Offends signature operation (.duplicateOperation operation.name)
  | argument {known others : List String} {sort : String} :
      operation.name ∉ signature.operations.map Operation.name →
      operation.argumentSorts = known ++ sort :: others →
      (∀ sort ∈ known, signature.knows sort = true) → signature.knows sort = false →
      Offends signature operation (.unknownArgumentSort operation.name sort)
  | result : operation.name ∉ signature.operations.map Operation.name →
      (∀ sort ∈ operation.argumentSorts, signature.knows sort = true) →
      signature.knows operation.resultSort = false →
      Offends signature operation (.unknownResultSort operation.name operation.resultSort)

theorem declare_of_offends {operation : Operation} {error : SignatureError}
    (h : signature.Offends operation error) : signature.declare operation = .error error := by
  unfold declare
  cases h with
  | duplicate hname => exact if_pos (isSome_operation?_iff.mpr hname)
  | @argument known others sort hnew hsorts hknown hunknown =>
    have hfirst :
        operation.argumentSorts.find? (fun sort => !signature.knows sort) = some sort := by
      rw [List.find?_eq_some_iff_append]
      exact ⟨by simp [hunknown], known, others, hsorts, by simpa using hknown⟩
    rw [if_neg (fun hsome => hnew (isSome_operation?_iff.mp hsome)), hfirst]
  | result hnew hknown hunknown =>
    have hnone : operation.argumentSorts.find? (fun sort => !signature.knows sort) = none := by
      simpa using hknown
    rw [if_neg (fun hsome => hnew (isSome_operation?_iff.mp hsome)), hnone]
    exact if_neg (by simp [hunknown])

/-- A declaration is refused exactly for what it offends by. -/
theorem declare_eq_error_iff {operation : Operation} {error : SignatureError} :
    signature.declare operation = .error error ↔ signature.Offends operation error := by
  constructor
  · intro h
    suffices hsome : ∃ found, signature.Offends operation found by
      obtain ⟨found, hfound⟩ := hsome
      have hsame := (declare_of_offends hfound).symm.trans h
      exact Except.error.inj hsame ▸ hfound
    -- it has one of the faults, or else it would have been accepted
    by_cases hname : operation.name ∈ signature.operations.map Operation.name
    · exact ⟨_, .duplicate hname⟩
    · cases hsorts : operation.argumentSorts.find? fun sort => !signature.knows sort with
      | some sort =>
        obtain ⟨hunknown, known, others, happend, hknown⟩ :=
          List.find?_eq_some_iff_append.mp hsorts
        exact ⟨_, .argument hname happend (by simpa using hknown) (by simpa using hunknown)⟩
      | none =>
        have hknown : ∀ sort ∈ operation.argumentSorts, signature.knows sort = true := by
          simpa using hsorts
        cases hresult : signature.knows operation.resultSort with
        | false => exact ⟨_, .result hname hknown hresult⟩
        | true =>
          have haccepted := declare_eq_ok_iff.mpr ⟨hname, ⟨hknown, hresult⟩, rfl⟩
          rw [haccepted] at h
          cases h
  · exact declare_of_offends

/-- The error is that of the first operation that offends the ones declared before
    it, none of which has offended. -/
def FirstOffence (signature : Signature) (error : SignatureError) : Prop :=
  ∃ before operation after, signature.operations = before ++ operation :: after ∧
    WellFormed { signature with operations := before } ∧
    Offends { signature with operations := before } operation error

theorem build_eq_error_iff {name : String} {dependencies : List String}
    {operations : List Operation} {error : SignatureError} :
    build name dependencies operations = .error error ↔
      FirstOffence ⟨name, dependencies, operations⟩ error := by
  rw [build, foldlM_eq_error_iff]
  constructor
  · intro h
    obtain ⟨before, operation, after, declared, happend, hbefore, hdeclare⟩ := h
    obtain ⟨rfl, hformed⟩ := build_eq_ok_iff.mp hbefore
    exact ⟨before, operation, after, happend, hformed, declare_eq_error_iff.mp hdeclare⟩
  · intro h
    obtain ⟨before, operation, after, happend, hformed, hoffends⟩ := h
    exact ⟨before, operation, after, ⟨name, dependencies, before⟩, happend,
      build_eq_ok_iff.mpr ⟨rfl, hformed⟩, declare_eq_error_iff.mpr hoffends⟩

/-- Operations that are not well formed together have a first one at fault. -/
theorem exists_firstOffence (h : ¬ signature.WellFormed) :
    ∃ error, signature.FirstOffence error := by
  cases hbuild : build signature.name signature.dependencies signature.operations with
  | error error => exact ⟨error, build_eq_error_iff.mp hbuild⟩
  | ok built =>
    obtain ⟨rfl, hformed⟩ := build_eq_ok_iff.mp hbuild
    exact absurd hformed h

end Signature

/-! ## Specifications -/

theorem Signature.knows_iff {signature : Signature} {sort : String} :
    signature.knows sort = true ↔ sort = signature.name ∨ sort ∈ signature.dependencies := by
  simp [knows]

namespace Specification

/-- What well-formed parts are, in terms of the lists alone. -/
theorem wellFormed_iff {specification : Specification} :
    specification.WellFormed ↔
      (specification.operations.map Operation.name).Nodup ∧
        (∀ operation ∈ specification.operations,
          ∀ sort ∈ operation.resultSort :: operation.argumentSorts,
            sort = specification.name ∨ sort ∈ specification.dependencies) ∧
        ∀ rule ∈ specification.rules, ∀ u, rule.Contains u →
          (u.sort = specification.name ∨ u.sort ∈ specification.dependencies) ∧
            (u.isApplication = true → u.sort = specification.name →
              ∃ operation ∈ specification.operations,
                operation.name = u.name ∧ operation.arity = u.arguments.length) := by
  simp only [← Signature.knows_iff, List.forall_mem_cons]
  constructor
  · intro h
    refine ⟨h.signature.distinct, ?_, ?_⟩
    · intro operation hoperation
      obtain ⟨harguments, hresult⟩ := h.signature.known operation hoperation
      exact ⟨hresult, harguments⟩
    · intro rule hrule u hu
      have hallows := h.allows u ⟨rule, hrule, hu⟩
      exact ⟨hallows.known, hallows.declared⟩
  · intro h
    obtain ⟨hdistinct, hsorts, hrules⟩ := h
    refine ⟨⟨hdistinct, ?_⟩, ?_⟩
    · intro operation hoperation
      obtain ⟨hresult, harguments⟩ := hsorts operation hoperation
      exact ⟨harguments, hresult⟩
    · intro u hu
      obtain ⟨rule, hrule, hu⟩ := hu
      obtain ⟨hknown, hdeclared⟩ := hrules rule hrule u hu
      exact ⟨hknown, hdeclared⟩

/-- A specification is built of its parts exactly when they are well formed together:
    operations have distinct names and known sorts, and the rules use known sorts and,
    in the own sort, declared operations with their number of arguments. It then has
    these parts, in their order. Where the operations are not well formed, one of them
    is the first at fault, and building fails with its error, whatever the rules are. -/
theorem build_decides_wellFormed (name : String) (dependencies : List String)
    (operations : List Operation) (rules : List Rule) :
    ((∃ built, build name dependencies operations rules = .ok built) ↔
        (operations.map Operation.name).Nodup ∧
          (∀ operation ∈ operations, ∀ sort ∈ operation.resultSort :: operation.argumentSorts,
            sort = name ∨ sort ∈ dependencies) ∧
          ∀ rule ∈ rules, ∀ u, rule.Contains u →
            (u.sort = name ∨ u.sort ∈ dependencies) ∧
              (u.isApplication = true → u.sort = name →
                ∃ operation ∈ operations,
                  operation.name = u.name ∧ operation.arity = u.arguments.length)) ∧
      (∀ built, build name dependencies operations rules = .ok built →
        built = ⟨⟨name, dependencies, operations⟩, rules⟩) ∧
      (¬ Signature.WellFormed ⟨name, dependencies, operations⟩ →
        ∃ error, Signature.FirstOffence ⟨name, dependencies, operations⟩ error) ∧
      ∀ error, Signature.FirstOffence ⟨name, dependencies, operations⟩ error →
        build name dependencies operations rules = .error error := by
  refine ⟨?_, ?_, Signature.exists_firstOffence, ?_⟩
  · have hbuilt := exists_build_iff ⟨⟨name, dependencies, operations⟩, rules⟩
    exact hbuilt.trans wellFormed_iff
  · intro built h
    exact (build_eq_ok_iff.mp h).1
  · intro error hfirst
    have hsignature := Signature.build_eq_error_iff.mpr hfirst
    unfold build
    rw [hsignature]
    rfl

/-- The second declaration is at fault by three of its sorts, and the third by its
    name: the second is reported, with the first of these sorts. The first declaration
    alone, with a rule for it, is accepted. -/
theorem first_unknown_sort_reported :
    let empty : Operation := ⟨"empty", [], "Set"⟩
    let size : Operation := ⟨"size", ["Set", "List", "Bag"], "Natural"⟩
    let rule : Rule := ⟨.constant "empty" "Set", .constant "empty" "Set", rfl⟩
    ¬ Signature.WellFormed ⟨"Set", [], [empty, size, empty]⟩ ∧
      Signature.FirstOffence ⟨"Set", [], [empty, size, empty]⟩
        (.unknownArgumentSort "size" "List") ∧
      build "Set" [] [empty, size, empty] [rule] =
        .error (.unknownArgumentSort "size" "List") ∧
      build "Set" [] [empty] [rule] = .ok ⟨⟨"Set", [], [empty]⟩, [rule]⟩ := by
  intro empty size rule
  obtain ⟨-, -, -, herror⟩ :=
    build_decides_wellFormed "Set" [] [empty, size, empty] [rule]
  obtain ⟨haccepts, hparts, -, -⟩ := build_decides_wellFormed "Set" [] [empty] [rule]
  have hrepeated : ¬ Signature.WellFormed ⟨"Set", [], [empty, size, empty]⟩ := by
    intro h
    exact absurd h.distinct (by simp [empty, size])
  have hempty : Signature.WellFormed ⟨"Set", [], [empty]⟩ := by
    refine ⟨by simp, List.forall_mem_singleton.mpr ⟨by simp [empty], ?_⟩⟩
    exact Signature.knows_iff.mpr (.inl rfl)
  have hsize : Signature.Offends ⟨"Set", [], [empty]⟩ size
      (.unknownArgumentSort "size" "List") := by
    have hsorts : size.argumentSorts = ["Set"] ++ "List" :: ["Bag"] := rfl
    refine .argument (by simp [empty, size]) hsorts ?_ ?_
    · exact List.forall_mem_singleton.mpr (Signature.knows_iff.mpr (.inl rfl))
    · rfl
  have hfirst : Signature.FirstOffence ⟨"Set", [], [empty, size, empty]⟩
      (.unknownArgumentSort "size" "List") := ⟨[empty], size, [empty], rfl, hempty, hsize⟩
  have hrule : ∀ u, rule.Contains u → u = .constant "empty" "Set" := by
    intro u hu
    rcases hu with hu | hu
    · exact Term.eq_of_subterm_of_arguments_eq_nil hu rfl
    · exact Term.eq_of_subterm_of_arguments_eq_nil hu rfl
  have hallowed : ∀ rule' ∈ [rule], ∀ u, rule'.Contains u →
      (u.sort = "Set" ∨ u.sort ∈ []) ∧
        (u.isApplication = true → u.sort = "Set" → ∃ operation ∈ [empty],
          operation.name = u.name ∧ operation.arity = u.arguments.length) := by
    refine List.forall_mem_singleton.mpr fun u hu => ?_
    rw [hrule u hu]
    exact ⟨.inl rfl, fun _ _ => ⟨empty, List.mem_singleton_self _, rfl, rfl⟩⟩
  obtain ⟨built, hbuilt⟩ := haccepts.mpr ⟨by simp, by simp [empty], hallowed⟩
  refine ⟨hrepeated, hfirst, herror _ hfirst, ?_⟩
  rw [hbuilt, hparts built hbuilt]

end Specification

end Equational
