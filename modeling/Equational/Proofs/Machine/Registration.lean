import Equational.Environment.Call
import Equational.Proofs.Machine.Outcome
import Equational.Proofs.Specification.Numbers
import Mathlib

/-! # Registering a specification

    A theory grows by specifications of sorts that it did not have. Such a sort
    was looked up in vain before, and a run that looks a sort up in vain fails for
    that reason. So a run that does not fail for want of the new sort has never
    looked it up, and goes on as it did.

    Two runs are compared here, in the theory before and in the one after. At
    every place of a run they look the same sorts up; the equations go up from
    the settling of a root (`settle_register`) through the passes
    (`pass_register`) to normalizations and calls.
-/

namespace Equational

namespace Theory

variable {theory : Theory} {added : Specification}

/-! ## Looking sorts up -/

/-- The new specification is found under its name, and all others as before. -/
theorem lookup?_register (theory : Theory) (added : Specification) (sort : String) :
    (theory.register added).lookup? sort =
      if sort = added.name then some added else theory.lookup? sort := by
  unfold lookup? register
  rw [Std.TreeMap.getElem?_insert]
  by_cases hsort : sort = added.name
  · simp [hsort]
  · have hne : compare added.name sort ≠ .eq := by
      intro h
      exact hsort (Std.LawfulEqCmp.eq_of_compare h).symm
    simp [hsort, hne]

/-- A sort is looked up as before, if it is not missing for being the new one. -/
theorem lookup_register (unrelated : theory.lookup? added.name = none) {sort : String}
    {outcome : Except Error Specification} (h : theory.lookup sort = outcome)
    (hne : outcome ≠ .error (.undefinedSort added.name)) :
    (theory.register added).lookup sort = outcome := by
  have hsort : sort ≠ added.name := by
    rintro rfl
    exact hne (h.symm.trans (lookup_eq_error_iff.mpr ⟨unrelated, rfl⟩))
  unfold lookup at h ⊢
  rw [lookup?_register, if_neg hsort]
  exact h

/-- So is the owner of a term. -/
theorem owner_register (unrelated : theory.lookup? added.name = none)
    {specification : Specification} {term : Term} {outcome : Except Error Specification}
    (h : theory.owner specification term = outcome)
    (hne : outcome ≠ .error (.undefinedSort added.name)) :
    (theory.register added).owner specification term = outcome := by
  unfold owner at h ⊢
  by_cases hsort : term.sort = specification.name
  · rw [if_pos hsort] at h ⊢
    exact h
  · rw [if_neg hsort] at h ⊢
    exact lookup_register unrelated h hne

/-! ## Runs -/

/-- The failure of a run for want of a sort. -/
abbrev Lacks {α : Type} (outcome : Except Stop α) (sort : String) : Prop :=
  outcome = .error (.failed (.undefinedSort sort))

/-- What is made of a result does not change the failure. -/
theorem Lacks.map {α β : Type} {outcome : Except Stop α} {sort : String} (h : Lacks outcome sort)
    (f : α → β) : Lacks (outcome.map f) sort := by
  rw [Lacks, h]
  rfl

/-- A look-up whose failure is that of the run. -/
theorem ne_of_not_lacks {α β : Type} {error : Error} {sort : String}
    (h : ¬ Lacks (.error (.failed error) : Except Stop α) sort) :
    (.error error : Except Error β) ≠ .error (.undefinedSort sort) := by
  intro heq
  exact h (by rw [Except.error.inj heq])

theorem settle_register (unrelated : theory.lookup? added.name = none) {n : Nat}
    {specification : Specification} {term : Term}
    (h : ¬ Lacks (theory.settle n specification term).outcome added.name) :
    (theory.register added).settle n specification term = theory.settle n specification term := by
  fun_induction settle theory n specification term with
  | case1 n specification term error howner =>
    rw [settle, owner_register unrelated howner (ne_of_not_lacks h)]
  | case2 n specification term owner howner error hstep =>
    rw [settle, owner_register unrelated howner (by simp)]
    simp only [hstep]
  | case3 n specification term owner howner hstep =>
    rw [settle, owner_register unrelated howner (by simp)]
    simp only [hstep]
  | case4 specification term owner howner next hstep =>
    rw [settle, owner_register unrelated howner (by simp)]
    simp only [hstep]
  | case5 specification term owner howner next hstep m ih =>
    -- the same firing, and then the same run
    rw [settle, owner_register unrelated howner (by simp)]
    simp only [hstep]
    exact ih h

/-- A pass, and passes over arguments, go as before. -/
theorem pass_register (unrelated : theory.lookup? added.name = none) :
    (∀ n specification term, ¬ Lacks (theory.pass n specification term).outcome added.name →
      (theory.register added).pass n specification term = theory.pass n specification term) ∧
    ∀ n terms, ¬ Lacks (theory.passAll n terms).outcome added.name →
      (theory.register added).passAll n terms = theory.passAll n terms := by
  apply @pass_induct theory
    (fun n specification term run => ¬ Lacks run.outcome added.name →
      (theory.register added).pass n specification term = run)
    (fun n terms run => ¬ Lacks run.outcome added.name →
      (theory.register added).passAll n terms = run)
  case stopped =>
    intro n specification term reason hroot h
    rw [pass_eq, settle_register unrelated (by rw [hroot]; exact h)]
    simp only [hroot]
  case var =>
    intro n specification term name sort hroot h
    rw [pass_eq, settle_register unrelated (by simp [hroot, Lacks])]
    simp only [hroot]
  case app =>
    intro n specification term operation sort arguments inner hroot _ ih h
    have hinner : ¬ Lacks inner.outcome added.name := fun hlacks => h (hlacks.map _)
    rw [pass_eq, settle_register unrelated (by simp [hroot, Lacks])]
    simp only [hroot, ih hinner]
  case nil =>
    intro n _
    exact passAll_nil _ n
  case undefined =>
    intro n term rest error hlookup h
    rw [passAll_cons, lookup_register unrelated hlookup (ne_of_not_lacks h)]
  case head =>
    intro n term rest specification reason left hlookup ih h
    have hhead := ih (by simpa [Lacks] using h)
    rw [passAll_cons, lookup_register unrelated hlookup (by simp)]
    simp only [hhead]
  case cons =>
    intro n term rest specification result left tail hlookup _ _ ihHead ihTail h
    have htail : ¬ Lacks tail.outcome added.name := fun hlacks => h (hlacks.map _)
    rw [passAll_cons, lookup_register unrelated hlookup (by simp)]
    simp only [ihHead (by simp [Lacks]), ihTail htail]

theorem normalizeWithin_register (unrelated : theory.lookup? added.name = none) {n : Nat}
    {specification : Specification} {term : Term}
    (h : ¬ Lacks (theory.normalizeWithin specification n term).outcome added.name) :
    (theory.register added).normalizeWithin specification n term =
      theory.normalizeWithin specification n term := by
  have hpass := (pass_register unrelated).1
  fun_induction normalizeWithin theory specification n term with
  | case1 n term first reason hfirst =>
    change (theory.pass n specification term).outcome = .error reason at hfirst
    rw [normalizeWithin, hpass n specification term (by rw [hfirst]; exact h)]
    simp only [hfirst, first]
  | case2 n term first next hfirst hless ih =>
    change (theory.pass n specification term).outcome = .ok next at hfirst
    rw [normalizeWithin, hpass n specification term (by simp [hfirst, Lacks])]
    simp only [hfirst]
    rw [if_pos hless]
    exact ih h
  | case3 n term first last hfirst hnot =>
    change (theory.pass n specification term).outcome = .ok last at hfirst
    rw [normalizeWithin, hpass n specification term (by simp [hfirst, Lacks])]
    simp only [hfirst]
    rw [if_neg hnot]

/-- An outcome lacks a sort only for the reason that the run lacked it: a limit
    that is reached is another failure. -/
theorem normalize_register (unrelated : theory.lookup? added.name = none) {fuel : Nat}
    {budget : Budget} {specification : Specification} {term : Term}
    (h : ¬ Lacks (theory.normalize fuel budget specification term).1 added.name) :
    (theory.register added).normalize fuel budget specification term =
      theory.normalize fuel budget specification term := by
  have hrun : ¬ Lacks
      (theory.normalizeWithin specification (budget.allowance fuel) term).outcome added.name := by
    intro hlacks
    simp only [normalize, hlacks] at h
    exact h rfl
  simp only [normalize, normalizeWithin_register unrelated hrun]

theorem Ends.register (unrelated : theory.lookup? added.name = none) {budget behind : Budget}
    {specification : Specification} {term : Term} {outcome : Except Error Term}
    (h : theory.Ends budget specification term outcome behind)
    (hne : outcome ≠ .error (.undefinedSort added.name)) :
    (theory.register added).Ends budget specification term outcome behind := by
  obtain ⟨fuel, hrun⟩ := ends_iff.mp h
  have hfound : ¬ Lacks (theory.normalize fuel budget specification term).1 added.name := by
    intro hlacks
    rw [hrun] at hlacks
    exact hne (mapError_failed_injective hlacks)
  exact ends_iff.mpr ⟨fuel, (normalize_register unrelated hfound).trans hrun⟩

end Theory

/-! ## Calls -/

namespace Environment

variable {environment : Environment} {added : Specification} {fuel : Nat}

open Theory (Lacks)

@[simp] theorem register_theory (environment : Environment) (added : Specification) :
    (environment.register added).theory = environment.theory.register added := rfl

theorem normalizeUnder_register (unrelated : environment.theory.lookup? added.name = none)
    {specification : Specification} {term : Term}
    (h : ¬ Lacks (environment.normalizeUnder fuel specification term) added.name) :
    (environment.register added).normalizeUnder fuel specification term =
      environment.normalizeUnder fuel specification term := by
  rw [normalizeUnder_eq] at h
  rw [normalizeUnder_eq, normalizeUnder_eq]
  exact congrArg Prod.fst (Theory.normalize_register unrelated h)

theorem dispatch_register (unrelated : environment.theory.lookup? added.name = none)
    {specification : Specification} {operation : String} {arguments : List Value}
    (h : ¬ Lacks (environment.dispatch fuel specification operation arguments) added.name) :
    (environment.register added).dispatch fuel specification operation arguments =
      environment.dispatch fuel specification operation arguments := by
  unfold dispatch at h ⊢
  cases hcheck : specification.checkCall operation (arguments.map Value.sort) with
  | error error => rfl
  | ok declared =>
    simp only [hcheck] at h ⊢
    cases hlookup : environment.theory.lookup declared.resultSort with
    | error error =>
      simp only [hlookup] at h
      rw [register_theory, Theory.lookup_register unrelated hlookup (Theory.ne_of_not_lacks h)]
    | ok owner =>
      simp only [hlookup] at h
      rw [register_theory, Theory.lookup_register unrelated hlookup (by simp)]
      dsimp only
      rw [normalizeUnder_register unrelated fun hlacks => h (hlacks.map _)]

theorem call_register (unrelated : environment.theory.lookup? added.name = none)
    {sort operation : String} {arguments : List Value}
    (h : ¬ Lacks (environment.call fuel sort operation arguments) added.name) :
    (environment.register added).call fuel sort operation arguments =
      environment.call fuel sort operation arguments := by
  unfold call at h ⊢
  cases hlookup : environment.theory.lookup sort with
  | error error =>
    simp only [hlookup] at h
    rw [register_theory, Theory.lookup_register unrelated hlookup (Theory.ne_of_not_lacks h)]
  | ok specification =>
    simp only [hlookup] at h
    rw [register_theory, Theory.lookup_register unrelated hlookup (by simp)]
    exact dispatch_register unrelated h

/-- A specification of a sort that had none changes no computation that does not
    fail for want of that sort: normalizations end as before and leave the same
    budget, under whichever specification they start, and so do the calls of
    operations. -/
theorem register_unrelated (environment : Environment) (added : Specification)
    (unrelated : environment.theory.lookup? added.name = none) :
    (∀ budget specification term outcome behind,
      environment.theory.Ends budget specification term outcome behind →
      outcome ≠ .error (.undefinedSort added.name) →
      (environment.register added).theory.Ends budget specification term outcome behind) ∧
    (∀ fuel budget specification term,
      (environment.theory.normalize fuel budget specification term).1 ≠
        .error (.failed (.undefinedSort added.name)) →
      (environment.register added).theory.normalize fuel budget specification term =
        environment.theory.normalize fuel budget specification term) ∧
    ∀ fuel sort operation arguments,
      environment.call fuel sort operation arguments ≠
        .error (.failed (.undefinedSort added.name)) →
      (environment.register added).call fuel sort operation arguments =
        environment.call fuel sort operation arguments := by
  refine ⟨?_, ?_, ?_⟩
  · intro budget specification term outcome behind h hne
    exact Theory.Ends.register unrelated h hne
  · intro fuel budget specification term h
    exact Theory.normalize_register unrelated h
  · intro fuel sort operation arguments h
    exact call_register unrelated h

/-- When queues become known, one and zero are added as before, by normalization
    and by a call, and a flag is missing as before. -/
theorem sum_unchanged_by_queues :
    let environment : Environment := (new Settings.standard).register .numbers
    let queues : Specification := ⟨⟨"Queue", [], [⟨"empty", [], "Queue"⟩]⟩, []⟩
    let sum := Term.plus (.ofCount 1) (.ofCount 0)
    let arguments : List Value := [⟨numberSort, .ofCount 1⟩, ⟨numberSort, .ofCount 0⟩]
    environment.theory.lookup? "Queue" = none ∧
      environment.theory.Ends ⟨none, 0⟩ .numbers sum (.ok (.ofCount 1)) ⟨none, 2⟩ ∧
      (environment.register queues).theory.Ends ⟨none, 0⟩ .numbers sum (.ok (.ofCount 1))
        ⟨none, 2⟩ ∧
      (environment.register queues).theory.normalize 2 ⟨none, 0⟩ .numbers sum =
        (.ok (.ofCount 1), ⟨none, 2⟩) ∧
      (environment.register queues).call 2 numberSort "add" arguments =
        .ok ⟨numberSort, .ofCount 1⟩ ∧
      (environment.register queues).call 2 "Flag" "up" [] =
        .error (.failed (.undefinedSort "Flag")) := by
  intro environment queues sum arguments
  have unrelated : environment.theory.lookup? "Queue" = none := by cbv
  obtain ⟨hends, hnormalize, hcall⟩ := register_unrelated environment queues unrelated
  have hsum : environment.theory.normalize 2 ⟨none, 0⟩ .numbers sum =
      (.ok (.ofCount 1), ⟨none, 2⟩) := by cbv
  have hadd : environment.call 2 numberSort "add" arguments =
      .ok ⟨numberSort, .ofCount 1⟩ := by cbv
  have hflag : environment.call 2 "Flag" "up" [] = .error (.failed (.undefinedSort "Flag")) := by
    cbv
  have hbefore : environment.theory.Ends ⟨none, 0⟩ .numbers sum (.ok (.ofCount 1)) ⟨none, 2⟩ :=
    Theory.ends_iff.mpr ⟨2, hsum⟩
  refine ⟨unrelated, hbefore, hends _ _ _ _ _ hbefore (by simp), ?_, ?_, ?_⟩
  · exact (hnormalize 2 ⟨none, 0⟩ .numbers sum (by simp [hsum])).trans hsum
  · exact (hcall 2 numberSort "add" arguments (by simp [hadd])).trans hadd
  · exact (hcall 2 "Flag" "up" [] (by simp [hflag, queues])).trans hflag

end Environment

end Equational
