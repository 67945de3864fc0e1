import Equational.Proofs.Sorting.Call

/-! # Refused calls

    A call is **refused** for the first reason there is: the operation is not
    declared, it takes another number of arguments, or one of them has another
    sort than the declared one, and then the leftmost of these is reported.

    What a call does after its checks may fail too, but it fails in another way.
    Rewriting stops for a sort that is not specified, for a rule that cannot be
    applied, or at the end of its allowance (`Stop.OfRewriting`). So an error of a
    call is always one of its checks (`Environment.call_eq_callError_iff`).
-/

namespace Equational

/-! ## Checks that fail -/

/-- Two lists of sorts differ at a position, and at none before it. -/
structure FirstMismatch (declared given : List String) (position : Nat)
    (expected found : String) : Prop where
  expected_eq : declared[position]? = some expected
  found_eq : given[position]? = some found
  ne : found ≠ expected
  agree : ∀ earlier < position, given[earlier]? = declared[earlier]?

namespace FirstMismatch

variable {declared given : List String} {position : Nat} {expected found : String}

/-- A sort that is the same in both lists moves the position by one. -/
theorem cons (h : FirstMismatch declared given position expected found) (sort : String) :
    FirstMismatch (sort :: declared) (sort :: given) (position + 1) expected found := by
  refine ⟨by simpa using h.expected_eq, by simpa using h.found_eq, h.ne, ?_⟩
  intro earlier hearlier
  cases earlier with
  | zero => rfl
  | succ earlier => simpa using h.agree earlier (by omega)

/-- At the first position, the mismatch is of the sorts that the lists begin with. -/
theorem head {sort sort' : String}
    (h : FirstMismatch (sort :: declared) (sort' :: given) 0 expected found) :
    sort = expected ∧ sort' = found :=
  ⟨by simpa using h.expected_eq, by simpa using h.found_eq⟩

/-- Behind the first position, the lists begin with the same sort. -/
theorem tail {sort sort' : String}
    (h : FirstMismatch (sort :: declared) (sort' :: given) (position + 1) expected found) :
    sort' = sort ∧ FirstMismatch declared given position expected found := by
  have hfirst := h.agree 0 (by omega)
  refine ⟨by simpa using hfirst, by simpa using h.expected_eq, by simpa using h.found_eq, h.ne, ?_⟩
  intro earlier hearlier
  simpa using h.agree (earlier + 1) (by omega)

end FirstMismatch

theorem Operation.checkSorts_eq_error_iff (operation : Operation) (start : Nat)
    {declared given : List String} {error : CallError} :
    operation.checkSorts start declared given = .error error ↔
      ∃ position expected found, FirstMismatch declared given position expected found ∧
        error = .argumentSortMismatch operation.name (start + position) expected found := by
  induction declared generalizing given start with
  | nil =>
    simp only [checkSorts, reduceCtorEq, false_iff]
    intro h
    obtain ⟨position, expected, found, hmismatch, -⟩ := h
    simpa using hmismatch.expected_eq
  | cons sort declared ih =>
    cases given with
    | nil =>
      simp only [checkSorts, reduceCtorEq, false_iff]
      intro h
      obtain ⟨position, expected, found, hmismatch, -⟩ := h
      simpa using hmismatch.found_eq
    | cons sort' given =>
      rw [checkSorts]
      by_cases hsort : sort' = sort
      · -- the mismatch is behind the first sort
        rw [if_pos hsort, ih (start + 1)]
        constructor
        · intro h
          obtain ⟨position, expected, found, hmismatch, rfl⟩ := h
          refine ⟨position + 1, expected, found, hsort ▸ hmismatch.cons sort', ?_⟩
          rw [Nat.add_assoc, Nat.add_comm 1 position]
        · intro h
          obtain ⟨position, expected, found, hmismatch, rfl⟩ := h
          cases position with
          | zero =>
            obtain ⟨rfl, rfl⟩ := hmismatch.head
            exact absurd hsort hmismatch.ne
          | succ position =>
            refine ⟨position, expected, found, hmismatch.tail.2, ?_⟩
            rw [Nat.add_assoc, Nat.add_comm 1 position]
      · -- the mismatch is here
        rw [if_neg hsort, Except.error.injEq]
        constructor
        · intro h
          subst h
          exact ⟨0, sort, sort', ⟨rfl, rfl, hsort, by simp⟩, rfl⟩
        · intro h
          obtain ⟨position, expected, found, hmismatch, rfl⟩ := h
          cases position with
          | zero =>
            obtain ⟨rfl, rfl⟩ := hmismatch.head
            rfl
          | succ position => exact absurd hmismatch.tail.1 hsort

namespace Signature

/-- `signature.Refuses name sorts error`: the operation cannot be called with
    arguments of these sorts, and the error is the first reason. -/
inductive Refuses (signature : Signature) (name : String) (sorts : List String) :
    CallError → Prop where
  | unknownOperation : signature.operation? name = none →
      Refuses signature name sorts (.unknownOperation signature.name name)
  | arityMismatch {declared : Operation} : signature.operation? name = some declared →
      sorts.length ≠ declared.arity →
      Refuses signature name sorts (.arityMismatch name declared.arity sorts.length)
  | argumentSortMismatch {declared : Operation} {position : Nat} {expected found : String} :
      signature.operation? name = some declared → sorts.length = declared.arity →
      FirstMismatch declared.argumentSorts sorts position expected found →
      Refuses signature name sorts (.argumentSortMismatch name position expected found)

variable {signature : Signature} {name : String} {sorts : List String}

theorem checkCall_eq_error_iff {error : CallError} :
    signature.checkCall name sorts = .error error ↔ signature.Refuses name sorts error := by
  unfold checkCall
  cases hoperation : signature.operation? name with
  | none =>
    simp only [Except.error.injEq]
    constructor
    · intro h
      subst h
      exact .unknownOperation hoperation
    · intro h
      cases h with
      | unknownOperation _ => rfl
      | arityMismatch hdeclared _ => rw [hoperation] at hdeclared; cases hdeclared
      | argumentSortMismatch hdeclared _ _ => rw [hoperation] at hdeclared; cases hdeclared
  | some operation =>
    have hname : operation.name = name := by simpa using List.find?_some hoperation
    by_cases harity : sorts.length = operation.arity
    · simp only [if_pos harity]
      constructor
      · intro h
        cases hsorts : operation.checkSorts 0 operation.argumentSorts sorts with
        | ok _ => rw [hsorts] at h; cases h
        | error found =>
          rw [hsorts] at h
          cases h
          obtain ⟨position, expected, found, hmismatch, rfl⟩ :=
            (operation.checkSorts_eq_error_iff 0).mp hsorts
          rw [hname, Nat.zero_add]
          exact .argumentSortMismatch hoperation harity hmismatch
      · intro h
        cases h with
        | unknownOperation hnone => rw [hoperation] at hnone; cases hnone
        | arityMismatch hdeclared hne =>
          cases hoperation.symm.trans hdeclared
          exact absurd harity hne
        | argumentSortMismatch hdeclared _ hmismatch =>
          cases hoperation.symm.trans hdeclared
          have hsorts := (operation.checkSorts_eq_error_iff 0).mpr ⟨_, _, _, hmismatch, rfl⟩
          rw [hsorts, hname, Nat.zero_add]
          rfl
    · simp only [if_neg harity, hname, Except.error.injEq]
      constructor
      · intro h
        subst h
        exact .arityMismatch hoperation harity
      · intro h
        cases h with
        | unknownOperation hnone => rw [hoperation] at hnone; cases hnone
        | arityMismatch hdeclared _ => cases hoperation.symm.trans hdeclared; rfl
        | argumentSortMismatch hdeclared hlength _ =>
          cases hoperation.symm.trans hdeclared
          exact absurd hlength harity

/-- What is not refused is a call of a declared operation with arguments of the
    declared sorts. -/
theorem exists_declared_of_not_refuses (h : ∀ error, ¬ signature.Refuses name sorts error) :
    ∃ declared, signature.operation? name = some declared ∧ sorts = declared.argumentSorts := by
  cases hchecked : signature.checkCall name sorts with
  | error error => exact absurd (checkCall_eq_error_iff.mp hchecked) (h error)
  | ok declared => exact ⟨declared, checkCall_eq_ok_iff.mp hchecked⟩

end Signature

/-! ## Rewriting that stops -/

/-- Rewriting stops for these reasons, and for no error of another phase. -/
def Stop.OfRewriting : Stop → Prop
  | .failed (.undefinedSort _) => True
  | .failed (.rewrite _) => True
  | .failed _ => False
  | .exhausted _ => True

namespace Theory

variable {theory : Theory} {specification : Specification}

theorem ofRewriting_of_lookup {sort : String} {error : Error}
    (h : theory.lookup sort = .error error) : (Stop.failed error).OfRewriting := by
  obtain ⟨-, rfl⟩ := lookup_eq_error_iff.mp h
  trivial

theorem Halts.ofRewriting {left : Nat} {t : Term} {reason : Stop}
    (h : theory.Halts left t reason) : reason.OfRewriting := by
  cases h with
  | undefined => trivial
  | unbound => trivial
  | exhausted => trivial

/-- Normalization stops where a run halts. -/
theorem normalize_orderly (registered : theory.Registered specification) {fuel : Nat}
    {budget : Budget} {term : Term} {reason : Stop}
    (h : (theory.normalize fuel budget specification term).1 = .error reason) :
    reason.OfRewriting := by
  obtain ⟨k, u, -, -, -, herror⟩ :=
    normalizeWithin_follows registered (budget.allowance fuel) term
  obtain ⟨found, hrun, rfl⟩ := normalize_eq_error_iff.mp h
  obtain ⟨v, -, halts⟩ := herror found hrun
  have hfound := halts.ofRewriting
  -- a limit that is reached is an error of rewriting
  cases found with
  | failed error => exact hfound
  | exhausted sort =>
    cases hlimit : budget.limit with
    | none => simp [Budget.explain, hlimit, Stop.OfRewriting]
    | some limit => simp [Budget.explain, hlimit, Stop.OfRewriting]

end Theory

namespace Environment

/-- A call reports an error of a call exactly when it is refused for it. -/
theorem call_eq_callError_iff {environment : Environment} {specification : Specification}
    (registered : environment.theory.Registered specification) {fuel : Nat} {operation : String}
    {arguments : List Value} {error : CallError} :
    environment.call fuel specification.name operation arguments = .error (.failed (.call error)) ↔
      specification.Refuses operation (arguments.map Value.sort) error := by
  have hlookup := Theory.lookup_eq_ok_iff.mpr registered
  rw [← Signature.checkCall_eq_error_iff]
  unfold call dispatch
  simp only [hlookup]
  cases hchecked : specification.checkCall operation (arguments.map Value.sort) with
  | error found => simp
  | ok declared =>
    simp only [reduceCtorEq, iff_false]
    intro h
    cases howner : environment.theory.lookup declared.resultSort with
    | error found =>
      have hreason := Theory.ofRewriting_of_lookup howner
      rw [howner] at h
      cases h
      exact hreason
    | ok owner =>
      simp only [howner, normalizeUnder_eq] at h
      cases hrun : (environment.theory.normalize fuel environment.settings.budget owner
          (.app declared.name specification.name (arguments.map Value.term))).1 with
      | ok result => rw [hrun] at h; cases h
      | error reason =>
        rw [hrun] at h
        cases h
        have registered := Theory.registered_of_lookup? (Theory.lookup_eq_ok_iff.mp howner)
        exact Theory.normalize_orderly registered hrun

end Environment

end Equational
