import Equational.Rewriting.Run
import Equational.Theory

/-! # Normalization

    A term is rewritten by the specification of its sort, first at its root and
    then in its arguments. One **pass** works from the top down:

    - the root is rewritten until no rule matches it, each time by the first
      rule that does; when it changes its sort, the specification of the new
      sort takes over;
    - then a pass goes over each argument, from left to right, under the
      specification of the argument's own sort.

    Rewriting an argument may let a rule match above it, so passes are repeated
    until one fires no rule. Such a pass has looked at every node in vain.
-/

namespace Equational

namespace Theory

/-- The specification that rewrites a term: the one at hand if it is of the
    term's sort. -/
def owner (theory : Theory) (specification : Specification) (term : Term) :
    Except Error Specification :=
  if term.sort = specification.name then .ok specification else theory.lookup term.sort

/-- Rewrites the root of a term until no rule matches it. -/
def settle (theory : Theory) : (n : Nat) → Specification → Term → Run Term
  | n, specification, term =>
    match theory.owner specification term with
    | .error error => ⟨.error (.failed error), n⟩
    | .ok owner =>
      match owner.step? term with
      | .error error => ⟨.error (.failed (.rewrite error)), n⟩
      | .ok none => ⟨.ok term, n⟩
      | .ok (some next) =>
        -- a firing that is not paid for is not made, though a rule matches
        match n with
        | 0 => ⟨.error (.exhausted owner.name), 0⟩
        | m + 1 => settle theory m owner next

theorem settle_left_le (theory : Theory) (n : Nat) (specification : Specification) (term : Term) :
    (theory.settle n specification term).left ≤ n := by
  induction n generalizing specification term with
  | zero =>
    unfold settle
    cases theory.owner specification term with
    | error error => exact Nat.le_refl _
    | ok owner =>
      cases hstep : owner.step? term with
      | error error => simp [hstep]
      | ok found => cases found <;> simp [hstep]
  | succ n ih =>
    -- the run behind a firing has one less to leave
    unfold settle
    cases theory.owner specification term with
    | error error => exact Nat.le_refl _
    | ok owner =>
      cases hstep : owner.step? term with
      | error error => simp [hstep]
      | ok found =>
        cases found with
        | none => simp [hstep]
        | some next => simpa [hstep] using Nat.le_succ_of_le (ih owner next)

/-- A root that was settled without a firing is the one given. -/
theorem settle_eq_of_left_eq {theory : Theory} {n : Nat} {specification : Specification}
    {term result : Term} (h : (theory.settle n specification term).outcome = .ok result)
    (hleft : (theory.settle n specification term).left = n) : result = term := by
  unfold settle at h hleft
  cases howner : theory.owner specification term with
  | error error => simp [howner] at h
  | ok owner =>
    cases hstep : owner.step? term with
    | error error => simp [howner, hstep] at h
    | ok found =>
      cases found with
      | none => simpa [howner, hstep] using h.symm
      | some next =>
        cases n with
        | zero => simp [howner, hstep] at h
        | succ m =>
          -- after a firing at most `m` are left, so not all `m + 1` can be
          have hle := theory.settle_left_le m owner next
          simp only [howner, hstep] at hleft
          omega

/-- Runs with a smaller allowance come first, then those on smaller terms. -/
theorem lex_of_le {m n a b : Nat} (h : m ≤ n) (hsize : m = n → a < b) :
    Prod.Lex (· < ·) (· < ·) (m, a) (n, b) := by
  rcases Nat.lt_or_eq_of_le h with hlt | heq
  · exact Prod.Lex.left _ _ hlt
  · rw [heq]
    exact Prod.Lex.right _ (hsize heq)

/-- The arguments of a term are smaller than the term. -/
theorem sizeOf_arguments_lt (operation sort : String) (arguments : List Term) :
    sizeOf arguments < sizeOf (Term.app operation sort arguments) := by
  simp only [Term.app.sizeOf_spec]
  omega

/-- A list of terms is larger than its first term. -/
theorem sizeOf_head_lt (term : Term) (rest : List Term) :
    sizeOf term < sizeOf (term :: rest) := by
  simp only [List.cons.sizeOf_spec]
  omega

/-- A list of terms is larger than what follows its first term. -/
theorem sizeOf_tail_lt (term : Term) (rest : List Term) :
    sizeOf rest < sizeOf (term :: rest) := by
  simp only [List.cons.sizeOf_spec]
  omega

mutual
/-- One pass over a term, with the fact that it leaves no more than it was
    given. -/
def boundedPass (theory : Theory) (n : Nat) (specification : Specification) (term : Term) :
    { run : Run Term // run.left ≤ n } :=
  let root := theory.settle n specification term
  have root_le : root.left ≤ n := theory.settle_left_le n specification term
  match _settled : root.outcome with
  | .error reason => ⟨⟨.error reason, root.left⟩, root_le⟩
  | .ok (.var name sort) => ⟨⟨.ok (.var name sort), root.left⟩, root_le⟩
  | .ok (.app operation sort arguments) =>
    let inner := boundedPassAll theory root.left arguments
    ⟨⟨inner.val.outcome.map (.app operation sort), inner.val.left⟩,
      Nat.le_trans inner.property root_le⟩
termination_by (n, sizeOf term)
decreasing_by
  -- if no rule fired at the root, these are the arguments of `term` itself
  refine lex_of_le root_le fun h => ?_
  rw [← settle_eq_of_left_eq _settled h]
  exact sizeOf_arguments_lt operation sort arguments
/-- Passes over terms, from left to right, each under the specification of its
    own sort. -/
def boundedPassAll (theory : Theory) (n : Nat) (terms : List Term) :
    { run : Run (List Term) // run.left ≤ n } :=
  match terms with
  | [] => ⟨⟨.ok [], n⟩, Nat.le_refl n⟩
  | term :: rest =>
    -- the sort of every argument has to be specified, that of a variable too
    match theory.lookup term.sort with
    | .error error => ⟨⟨.error (.failed error), n⟩, Nat.le_refl n⟩
    | .ok specification =>
      let head := boundedPass theory n specification term
      match head.val.outcome with
      | .error reason => ⟨⟨.error reason, head.val.left⟩, head.property⟩
      | .ok result =>
        let tail := boundedPassAll theory head.val.left rest
        ⟨⟨tail.val.outcome.map (result :: ·), tail.val.left⟩,
          Nat.le_trans tail.property head.property⟩
termination_by (n, sizeOf terms)
decreasing_by
  · exact lex_of_le (Nat.le_refl n) fun _ => sizeOf_head_lt term rest
  · exact lex_of_le head.property fun _ => sizeOf_tail_lt term rest
end

/-- One pass over a term. -/
def pass (theory : Theory) (n : Nat) (specification : Specification) (term : Term) : Run Term :=
  (theory.boundedPass n specification term).val

/-- Passes over terms, from left to right. -/
def passAll (theory : Theory) (n : Nat) (terms : List Term) : Run (List Term) :=
  (theory.boundedPassAll n terms).val

/-- Passes until one fires no rule. Each pass starts with the specification
    given. -/
def normalizeWithin (theory : Theory) (specification : Specification) (n : Nat) (term : Term) :
    Run Term :=
  let first := theory.pass n specification term
  match first.outcome with
  | .error reason => ⟨.error reason, first.left⟩
  | .ok next =>
    -- a pass that was charged has fired a rule
    if first.left < n then normalizeWithin theory specification first.left next
    else ⟨.ok next, first.left⟩
termination_by n

/-! ## Induction over passes -/

theorem pass_left_le (theory : Theory) (n : Nat) (specification : Specification) (term : Term) :
    (theory.pass n specification term).left ≤ n :=
  (theory.boundedPass n specification term).property

theorem passAll_left_le (theory : Theory) (n : Nat) (terms : List Term) :
    (theory.passAll n terms).left ≤ n :=
  (theory.boundedPassAll n terms).property

/-- A pass settles the root, and then passes over the arguments. -/
theorem pass_eq (theory : Theory) (n : Nat) (specification : Specification) (term : Term) :
    theory.pass n specification term =
      let root := theory.settle n specification term
      match root.outcome with
      | .error reason => ⟨.error reason, root.left⟩
      | .ok (.var name sort) => ⟨.ok (.var name sort), root.left⟩
      | .ok (.app operation sort arguments) =>
        let inner := theory.passAll root.left arguments
        ⟨inner.outcome.map (.app operation sort), inner.left⟩ := by
  -- without the bounds that were needed for the recursion to end
  rw [pass, boundedPass]
  dsimp only
  split
  · next hroot => simp only [hroot]
  · next hroot => simp only [hroot]
  · next hroot => simp only [hroot, passAll]

@[simp] theorem passAll_nil (theory : Theory) (n : Nat) : theory.passAll n [] = ⟨.ok [], n⟩ := by
  rw [passAll, boundedPassAll]

/-- The first argument comes before the others, and a failure there ends the
    pass. -/
theorem passAll_cons (theory : Theory) (n : Nat) (term : Term) (rest : List Term) :
    theory.passAll n (term :: rest) =
      match theory.lookup term.sort with
      | .error error => ⟨.error (.failed error), n⟩
      | .ok specification =>
        let head := theory.pass n specification term
        match head.outcome with
        | .error reason => ⟨.error reason, head.left⟩
        | .ok result =>
          let tail := theory.passAll head.left rest
          ⟨tail.outcome.map (result :: ·), tail.left⟩ := by
  rw [passAll, boundedPassAll]
  cases theory.lookup term.sort with
  | error error => rfl
  | ok specification =>
    dsimp only
    cases hhead : (theory.boundedPass n specification term).val.outcome with
    | error reason => simp only [pass, hhead]
    | ok result => simp only [pass, hhead, passAll]

/-- Induction over the passes of a run: a property of passes and their runs, and
    one of passes over arguments, that follow from each other in the order of
    the work. No part of a run leaves more than it was given. -/
theorem pass_induct (theory : Theory) {motive : Nat → Specification → Term → Run Term → Prop}
    {motives : Nat → List Term → Run (List Term) → Prop}
    (stopped : ∀ n specification term reason,
      (theory.settle n specification term).outcome = .error reason →
      motive n specification term ⟨.error reason, (theory.settle n specification term).left⟩)
    (var : ∀ n specification term name sort,
      (theory.settle n specification term).outcome = .ok (.var name sort) →
      motive n specification term
        ⟨.ok (.var name sort), (theory.settle n specification term).left⟩)
    (app : ∀ n specification term operation sort arguments (inner : Run (List Term)),
      (theory.settle n specification term).outcome = .ok (.app operation sort arguments) →
      inner.left ≤ (theory.settle n specification term).left →
      motives (theory.settle n specification term).left arguments inner →
      motive n specification term ⟨inner.outcome.map (.app operation sort), inner.left⟩)
    (nil : ∀ n, motives n [] ⟨.ok [], n⟩)
    (undefined : ∀ n term rest error, theory.lookup term.sort = .error error →
      motives n (term :: rest) ⟨.error (.failed error), n⟩)
    (head : ∀ n term rest specification reason left, theory.lookup term.sort = .ok specification →
      motive n specification term ⟨.error reason, left⟩ →
      motives n (term :: rest) ⟨.error reason, left⟩)
    (cons : ∀ n term rest specification result left (tail : Run (List Term)),
      theory.lookup term.sort = .ok specification → left ≤ n → tail.left ≤ left →
      motive n specification term ⟨.ok result, left⟩ → motives left rest tail →
      motives n (term :: rest) ⟨tail.outcome.map (result :: ·), tail.left⟩) :
    (∀ n specification term, motive n specification term (theory.pass n specification term)) ∧
      ∀ n terms, motives n terms (theory.passAll n terms) := by
  -- by the recursion of the bounded passes, each case read through the equation of the pass
  apply boundedPass.mutual_induct theory
  case case1 =>
    intro n specification term root _ reason hroot
    rw [pass_eq]
    simp only [root] at hroot
    simpa only [hroot] using stopped n specification term reason hroot
  case case2 =>
    intro n specification term root _ name sort hroot
    rw [pass_eq]
    simp only [root] at hroot
    simpa only [hroot] using var n specification term name sort hroot
  case case3 =>
    intro n specification term root _ operation sort arguments hroot _ ih
    rw [pass_eq]
    simp only [root] at hroot
    have hle := theory.passAll_left_le (theory.settle n specification term).left arguments
    simpa only [hroot] using app n specification term operation sort arguments _ hroot hle ih
  case case4 =>
    intro n
    simpa using nil n
  case case5 =>
    intro n term rest error hlookup
    rw [passAll_cons]
    simpa only [hlookup] using undefined n term rest error hlookup
  case case6 =>
    intro n term rest specification hlookup first reason hfirst ih
    rw [passAll_cons]
    change (theory.pass n specification term).outcome = _ at hfirst
    simp only [hlookup, hfirst]
    refine head n term rest specification reason _ hlookup ?_
    rw [← hfirst]
    exact ih
  case case7 =>
    intro n term rest specification hlookup first result hfirst ihFirst _ ihTail
    rw [passAll_cons]
    change (theory.pass n specification term).outcome = _ at hfirst
    simp only [hlookup, hfirst]
    refine cons n term rest specification result _ _ hlookup
      (theory.pass_left_le n specification term) (theory.passAll_left_le _ rest) ?_ ihTail
    rw [← hfirst]
    exact ihFirst

end Theory

end Equational
