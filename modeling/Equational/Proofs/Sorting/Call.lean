import Equational.Environment.Call
import Equational.Proofs.Sorting.SubjectReduction

/-! # Calls preserve sorts

    A call checks the sorts of its arguments once, and nothing looks at sorts
    again until its value is there. What the check asks for
    (`Signature.checkCall_eq_ok_iff`) makes the application a well-sorted term if
    the arguments are. So where rules preserve sorts, the value of the call is
    well-sorted too, and of the result sort that the operation is declared with
    (`Environment.call_preserves_sorts`).
-/

namespace Equational

/-! ## Checks -/

namespace Operation

/-- The check of sorts passes when they are those expected. Lists of different
    length are not its concern. -/
theorem checkSorts_eq_ok_iff (operation : Operation) (position : Nat) {expected found : List String}
    (hlength : found.length = expected.length) :
    operation.checkSorts position expected found = .ok () ↔ found = expected := by
  induction expected generalizing found position with
  | nil =>
    have hfound : found = [] := List.eq_nil_of_length_eq_zero hlength
    simp [checkSorts, hfound]
  | cons sort expected ih =>
    cases found with
    | nil => cases hlength
    | cons sort' found =>
      have hrest : found.length = expected.length := by simpa using hlength
      rw [checkSorts, List.cons.injEq]
      by_cases hsort : sort' = sort
      · rw [if_pos hsort, ih (position + 1) hrest]
        simp [hsort]
      · rw [if_neg hsort]
        simp [hsort]

end Operation

/-- A call passes its checks when the operation is declared with the sorts of the
    arguments. -/
theorem Signature.checkCall_eq_ok_iff {signature : Signature} {name : String}
    {sorts : List String} {declared : Operation} :
    signature.checkCall name sorts = .ok declared ↔
      signature.operation? name = some declared ∧ sorts = declared.argumentSorts := by
  unfold checkCall
  cases hoperation : signature.operation? name with
  | none => simp
  | some operation =>
    by_cases harity : sorts.length = operation.arity
    · simp only [if_pos harity, map_eq_ok_iff, Option.some.injEq]
      constructor
      · rintro ⟨_, hsorts, rfl⟩
        exact ⟨rfl, (operation.checkSorts_eq_ok_iff 0 harity).mp hsorts⟩
      · rintro ⟨rfl, hsorts⟩
        exact ⟨(), (operation.checkSorts_eq_ok_iff 0 harity).mpr hsorts, rfl⟩
    · simp only [if_neg harity, Option.some.injEq]
      constructor
      · intro h
        cases h
      · rintro ⟨rfl, hsorts⟩
        exact absurd (congrArg List.length hsorts) harity

/-! ## Calls -/

/-- A call that passes its checks is for a well-sorted term, if its arguments
    are. -/
theorem Theory.hasSort_of_checkCall {theory : Theory} {specification : Specification}
    (registered : theory.Registered specification) {operation : String} {arguments : List Value}
    {declared : Operation} (wellSorted : ∀ a ∈ arguments, theory.HasSort a.term a.sort)
    (checked : specification.checkCall operation (arguments.map Value.sort) = .ok declared) :
    theory.HasSort (.app operation specification.name (arguments.map Value.term))
      declared.resultSort := by
  obtain ⟨hdeclared, hsorts⟩ := Signature.checkCall_eq_ok_iff.mp checked
  apply hasSort_app (declared?_eq_some_iff.mpr ⟨specification, registered, hdeclared⟩)
  · rw [← hsorts, List.map_map]
    apply List.map_congr_left
    intro a ha
    exact (wellSorted a ha).sortOf_eq
  · intro t ht
    obtain ⟨a, ha, rfl⟩ := List.mem_map.mp ht
    exact ⟨a.sort, wellSorted a ha⟩

namespace Environment

variable {environment : Environment} {specification : Specification}

/-- A call that passes its checks normalizes the application under the
    specification of the result sort. -/
theorem call_of_checkCall (registered : environment.theory.Registered specification)
    {operation : String} {arguments : List Value} {declared : Operation} {owner : Specification}
    (checked : specification.checkCall operation (arguments.map Value.sort) = .ok declared)
    (howner : environment.theory.lookup declared.resultSort = .ok owner) (fuel : Nat) :
    environment.call fuel specification.name operation arguments =
      ((environment.theory.normalize fuel environment.settings.budget owner
        (.app operation specification.name (arguments.map Value.term))).1).map
          (⟨declared.resultSort, ·⟩) := by
  have hlookup : environment.theory.lookup specification.name = .ok specification :=
    Theory.lookup_eq_ok_iff.mpr registered
  have hdeclared := (Signature.checkCall_eq_ok_iff.mp checked).1
  have hname : declared.name = operation := by
    simpa using List.find?_some hdeclared
  unfold call dispatch
  simp only [hlookup, checked, howner, hname, normalizeUnder_eq]

/-- Where rules preserve sorts, a call of an operation with well-sorted arguments
    of the declared sorts gives a well-sorted value of the declared result sort;
    or its limit ends it; or there is no limit and it goes on forever. It does
    not fail otherwise. -/
theorem call_preserves_sorts (environment : Environment)
    (preserves : environment.theory.PreservesSorts) (specification : Specification)
    (registered : environment.theory.Registered specification) (operation : String)
    (arguments : List Value)
    (wellSorted : ∀ a ∈ arguments, environment.theory.HasSort a.term a.sort) (declared : Operation)
    (checked : specification.checkCall operation (arguments.map Value.sort) = .ok declared) :
    (∃ value : Value, value.sort = declared.resultSort ∧
      environment.theory.HasSort value.term value.sort ∧
      ∃ enough, ∀ fuel ≥ enough,
        environment.call fuel specification.name operation arguments = .ok value) ∨
    (∃ limit sort, environment.settings.maxRewriteSteps = some limit ∧
      ∀ fuel, environment.call fuel specification.name operation arguments =
        .error (.failed (.rewrite (.stepLimitExceeded sort limit)))) ∨
    (environment.settings.maxRewriteSteps = none ∧
      (∃ owner, environment.theory.lookup declared.resultSort = .ok owner ∧
        environment.theory.RunsForever environment.settings.budget owner
          (.app operation specification.name (arguments.map Value.term))) ∧
      ∀ fuel, ∃ sort, environment.call fuel specification.name operation arguments =
        .error (.exhausted sort)) := by
  have hdeclared := (Signature.checkCall_eq_ok_iff.mp checked).1
  have hcontains := preserves.results specification registered declared
    (List.mem_of_find?_eq_some hdeclared)
  obtain ⟨owner, hlookup⟩ := Option.isSome_iff_exists.mp hcontains
  have howner := Theory.lookup_eq_ok_iff.mpr hlookup
  have hcall := call_of_checkCall registered checked howner
  have hterm := Theory.hasSort_of_checkCall registered wellSorted checked
  rcases Theory.ends_hasSort preserves (Theory.registered_of_lookup? hlookup) hterm
      environment.settings.budget with
    ⟨result, behind, hresult, hends⟩ | ⟨limit, sort, behind, hlimit, hends⟩ | ⟨hlimit, hforever⟩
  · left
    refine ⟨⟨declared.resultSort, result⟩, rfl, hresult, behind.used, ?_⟩
    intro fuel hfuel
    rw [hcall, Theory.normalize_of_ends hends fuel fun _ => by omega]
    rfl
  · right; left
    refine ⟨limit, sort, hlimit, ?_⟩
    intro fuel
    rw [hcall, Theory.normalize_of_ends hends fuel (by simp [hlimit])]
    rfl
  · right; right
    refine ⟨hlimit, ⟨owner, howner, hforever⟩, ?_⟩
    intro fuel
    obtain ⟨sort, hstop⟩ := Theory.runsForever_iff.mp hforever fuel
    refine ⟨sort, ?_⟩
    rw [hcall, hstop]
    rfl

/-- The sum of one and zero, called for on their values, is the value one of the
    sort of numbers. -/
theorem one_plus_zero_hasSort :
    let environment : Environment := (new Settings.standard).register .numbers
    let arguments : List Value := [⟨numberSort, .ofCount 1⟩, ⟨numberSort, .ofCount 0⟩]
    environment.theory.PreservesSorts ∧ environment.theory.Registered .numbers ∧
      (∀ a ∈ arguments, environment.theory.HasSort a.term a.sort) ∧
      Specification.numbers.checkCall "add" (arguments.map Value.sort) =
        .ok ⟨"add", [numberSort, numberSort], numberSort⟩ ∧
      environment.theory.HasSort (.ofCount 1) numberSort ∧
      ∃ enough, ∀ fuel ≥ enough,
        environment.call fuel numberSort "add" arguments = .ok ⟨numberSort, .ofCount 1⟩ := by
  intro environment arguments
  have registered : environment.theory.Registered .numbers := Theory.registered_register _ _
  have preserves : environment.theory.PreservesSorts := Theory.preservesSorts_numbers
  have wellSorted : ∀ a ∈ arguments, environment.theory.HasSort a.term a.sort := by
    intro a ha
    rcases List.mem_pair.mp ha with rfl | rfl
    · exact Theory.hasSort_ofCount registered 1
    · exact Theory.hasSort_ofCount registered 0
  have checked : Specification.numbers.checkCall "add" (arguments.map Value.sort) =
      .ok ⟨"add", [numberSort, numberSort], numberSort⟩ := by cbv
  have howner : environment.theory.lookup numberSort = .ok .numbers :=
    Theory.lookup_eq_ok_iff.mpr registered
  have hends : environment.theory.Ends ⟨none, 0⟩ .numbers (.plus (.ofCount 1) (.ofCount 0))
      (.ok (.ofCount 1)) ⟨none, 2⟩ := Theory.ends_iff.mpr ⟨2, by cbv⟩
  -- two firings are enough, and the value is the same for any fuel beyond
  have hone : ∀ fuel ≥ 2, environment.call fuel numberSort "add" arguments =
      .ok ⟨numberSort, .ofCount 1⟩ := by
    intro fuel hfuel
    have hcall : environment.call fuel numberSort "add" arguments =
        (environment.theory.normalize fuel ⟨none, 0⟩ .numbers
          (.plus (.ofCount 1) (.ofCount 0))).1.map (⟨numberSort, ·⟩) :=
      call_of_checkCall registered checked howner fuel
    rw [hcall, Theory.normalize_of_ends hends fuel fun _ => by simpa using hfuel]
    rfl
  refine ⟨preserves, registered, wellSorted, checked, ?_⟩
  rcases call_preserves_sorts environment preserves .numbers registered "add" arguments wellSorted
      _ checked with
    ⟨value, _, hvalue, enough, hall⟩ | ⟨limit, sort, hlimit, _⟩ | ⟨_, _, hforever⟩
  · have hsame := (hall (max enough 2) (Nat.le_max_left _ _)).symm.trans
      (hone (max enough 2) (Nat.le_max_right _ _))
    obtain rfl := Except.ok.inj hsame
    exact ⟨hvalue, enough, hall⟩
  · cases hlimit
  · obtain ⟨sort, hstop⟩ := hforever 2
    cases (hone 2 (Nat.le_refl _)).symm.trans hstop

end Environment

end Equational
