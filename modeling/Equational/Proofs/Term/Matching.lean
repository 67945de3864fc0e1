import Equational.Proofs.Term.Instance
import Equational.Term.Matching

/-! # Matching decides instances

    Two directions. A pattern matches each of its instances, and the bindings
    it is left with are those from before together with the image of each of
    its variables (`match?_instance`); for repeated variables this needs that a
    term matches itself, also one with variables. The other way round, a
    candidate that is matched is an instance, under any assignment that agrees
    with the bindings, if what was bound before it was met again is ground
    (`instantiate_of_match?`). In ground candidates everything is
    (`match?_sound`).

    A match keeps the bindings from before (`match?_extends`), and of the names
    it binds those of the pattern and no others (`contains_of_match?`). What is
    shown of all successful matches goes by `match?_induct`, which has one case
    for each way to succeed.
-/

namespace Equational

namespace Term

/-! ## How a pattern matches -/

theorem match?_var (name sort : String) (bindings : Bindings) (candidate : Term) :
    (var name sort).match? bindings candidate =
      match bindings.get? name with
      | none => some (bindings.insert name candidate)
      | some bound => (bound.match? ∅ candidate).map fun _ => bindings := by
  rw [match?, matchWith]
  cases hbound : bindings.get? name with
  | none => rfl
  | some bound =>
    cases bound with
    | var other sort' => simp [match?, matchWith]
    | app operation sort' patterns => simp [match?, matchWith]

@[simp] theorem match?_app_var (operation sort name sort' : String) (patterns : List Term)
    (bindings : Bindings) :
    (app operation sort patterns).match? bindings (.var name sort') = none := by
  rw [match?, matchWith, matchApplication]

theorem match?_app_app (operation sort operation' sort' : String) (patterns arguments : List Term)
    (bindings : Bindings) :
    (app operation sort patterns).match? bindings (.app operation' sort' arguments) =
      if sort = sort' ∧ operation = operation' ∧ patterns.length = arguments.length then
        matchArguments patterns bindings arguments
      else none := by
  rw [match?, matchWith, matchApplication]

theorem matchArguments_nil (patterns : List Term) (bindings : Bindings) :
    matchArguments patterns bindings [] = some bindings := by
  rw [matchArguments]

theorem matchArguments_cons (pattern candidate : Term) (patterns candidates : List Term)
    (bindings : Bindings) :
    matchArguments (pattern :: patterns) bindings (candidate :: candidates) =
      (pattern.match? bindings candidate).bind fun bindings =>
        matchArguments patterns bindings candidates := by
  rw [matchArguments, match?]
  cases matchWith _ bindings candidate pattern with
  | none => rfl
  | some bindings => rfl

/-- Arguments keep the bindings from before, if each of the patterns does. -/
theorem matchArguments_extends {patterns : List Term}
    (each : ∀ pattern ∈ patterns, ∀ bindings candidate behind,
      pattern.match? bindings candidate = some behind → behind.Extends bindings)
    {bindings : Bindings} {candidates : List Term} {behind : Bindings}
    (h : matchArguments patterns bindings candidates = some behind) :
    behind.Extends bindings := by
  induction candidates generalizing patterns bindings with
  | nil =>
    rw [matchArguments_nil, Option.some.injEq] at h
    rw [h]
    exact .refl behind
  | cons candidate candidates ih =>
    cases patterns with
    | nil =>
      rw [matchArguments, Option.some.injEq] at h
      rw [h]
      exact .refl behind
    | cons pattern patterns =>
      rw [matchArguments_cons, Option.bind_eq_some_iff] at h
      obtain ⟨between, hfirst, hrest⟩ := h
      have hbetween := each pattern (by simp) bindings candidate between hfirst
      exact (ih (fun t ht => each t (by simp [ht])) hrest).trans hbetween

/-- What is bound before a match is bound to the same behind it. -/
theorem match?_extends {pattern : Term} {bindings : Bindings} {candidate : Term}
    {behind : Bindings} (h : pattern.match? bindings candidate = some behind) :
    behind.Extends bindings := by
  induction pattern using Term.induct generalizing bindings candidate behind with
  | var name sort =>
    rw [match?_var] at h
    cases hname : bindings.get? name with
    | none =>
      simp only [hname, Option.some.injEq] at h
      rw [← h]
      exact Bindings.insert_extends hname candidate
    | some term =>
      simp only [hname, Option.map_eq_some_iff] at h
      obtain ⟨inner, _, rfl⟩ := h
      exact .refl bindings
  | app operation sort patterns ih =>
    cases candidate with
    | var name sort' => simp at h
    | app operation' sort' arguments =>
      rw [match?_app_app] at h
      split at h
      · exact matchArguments_extends (fun t ht _ _ _ => ih t ht) h
      · cases h

/-- Induction over successful matches, with their bindings before and after. -/
theorem match?_induct (motive : Term → Bindings → Term → Bindings → Prop)
    (motives : List Term → Bindings → List Term → Bindings → Prop)
    (fresh : ∀ name sort bindings candidate, bindings.get? name = none →
      motive (.var name sort) bindings candidate (bindings.insert name candidate))
    (bound : ∀ name sort bindings candidate term inner, bindings.get? name = some term →
      term.match? ∅ candidate = some inner → motive (.var name sort) bindings candidate bindings)
    (app : ∀ operation sort patterns bindings arguments behind,
      patterns.length = arguments.length → motives patterns bindings arguments behind →
      motive (.app operation sort patterns) bindings (.app operation sort arguments) behind)
    (nil : ∀ bindings, motives [] bindings [] bindings)
    (cons : ∀ pattern patterns bindings candidate candidates between behind,
      pattern.match? bindings candidate = some between → behind.Extends between →
      motive pattern bindings candidate between → motives patterns between candidates behind →
      motives (pattern :: patterns) bindings (candidate :: candidates) behind)
    {pattern : Term} {bindings : Bindings} {candidate : Term} {behind : Bindings}
    (h : pattern.match? bindings candidate = some behind) :
    motive pattern bindings candidate behind := by
  induction pattern using Term.induct generalizing bindings candidate behind with
  | var name sort =>
    rw [match?_var] at h
    cases hname : bindings.get? name with
    | none =>
      simp only [hname, Option.some.injEq] at h
      rw [← h]
      exact fresh name sort bindings candidate hname
    | some term =>
      simp only [hname, Option.map_eq_some_iff] at h
      obtain ⟨inner, hinner, rfl⟩ := h
      exact bound name sort bindings candidate term inner hname hinner
  | app operation sort patterns ih =>
    cases candidate with
    | var name sort' => simp at h
    | app operation' sort' arguments =>
      rw [match?_app_app] at h
      split at h
      · rename_i hhead
        obtain ⟨rfl, rfl, hlength⟩ := hhead
        refine app operation sort patterns bindings arguments behind hlength ?_
        -- the arguments one after the other, each with the bindings of the one before
        clear app
        induction patterns generalizing bindings arguments with
        | nil =>
          obtain rfl := List.length_eq_zero_iff.mp hlength.symm
          rw [matchArguments_nil, Option.some.injEq] at h
          rw [h]
          exact nil behind
        | cons pattern patterns ihRest =>
          obtain ⟨candidate, candidates, rfl⟩ :=
            List.exists_cons_of_length_pos (l := arguments) (by simp at hlength; omega)
          rw [matchArguments_cons, Option.bind_eq_some_iff] at h
          obtain ⟨between, hfirst, hrest⟩ := h
          exact cons pattern patterns bindings candidate candidates between behind hfirst
            (matchArguments_extends (fun _ _ _ _ _ => match?_extends) hrest)
            (ih pattern (by simp) hfirst)
            (ihRest (fun t ht => ih t (by simp [ht])) candidates hrest (by simpa using hlength))
      · cases h

/-- The names that a match leaves bound are those of the pattern and those that
    were bound before. -/
theorem contains_of_match? {pattern : Term} {bindings : Bindings} {candidate : Term}
    {behind : Bindings} (h : pattern.match? bindings candidate = some behind) (name : String) :
    behind.contains name ↔ name ∈ pattern.variableNames ∨ bindings.contains name := by
  refine match?_induct
    (fun pattern bindings _ behind =>
      behind.contains name ↔ name ∈ pattern.variableNames ∨ bindings.contains name)
    (fun patterns bindings _ behind =>
      behind.contains name ↔ name ∈ variableNamesAll patterns ∨ bindings.contains name)
    ?fresh ?bound ?app ?nil ?cons h
  case fresh =>
    intro other sort bindings candidate _
    rw [variableNames, List.mem_singleton, Bindings.contains_insert]
  case bound =>
    -- the name that is met again was bound before
    intro other sort bindings candidate term inner hother _
    have hcontains : bindings.contains other := by simp [Bindings.contains, hother]
    rw [variableNames, List.mem_singleton]
    constructor
    · exact Or.inr
    · rintro (rfl | hname)
      · exact hcontains
      · exact hname
  case app =>
    intro operation sort patterns bindings arguments behind _ ih
    exact ih
  case nil =>
    intro bindings
    simp [variableNamesAll]
  case cons =>
    intro pattern patterns bindings candidate candidates between behind _ _ ihFirst ihRest
    rw [ihRest, ihFirst, variableNamesAll, List.mem_append]
    tauto

/-! ## Instances are matched -/

/-- Bindings of variables to variables do not keep a term from matching itself,
    and a match of a term with itself adds no others. -/
theorem match?_self_of_renaming (t : Term) {bindings : Bindings}
    (renames : ∀ name term, bindings.get? name = some term → term.isVariable) :
    ∃ behind, t.match? bindings t = some behind ∧
      ∀ name term, behind.get? name = some term → term.isVariable := by
  induction t using Term.induct generalizing bindings with
  | var name sort =>
    rw [match?_var]
    cases hname : bindings.get? name with
    | none =>
      refine ⟨_, rfl, ?_⟩
      intro other term h
      rw [Bindings.get?_insert] at h
      split at h
      · rw [← Option.some.inj h]
        rfl
      · exact renames other term h
    | some bound =>
      -- a variable matches anything when nothing is bound
      obtain ⟨inner, hinner⟩ : ∃ inner, bound.match? ∅ (.var name sort) = some inner := by
        cases bound with
        | var other sort' => exact ⟨_, by rw [match?_var]; rfl⟩
        | app operation sort' patterns => simpa [isVariable] using renames name _ hname
      exact ⟨bindings, by simp [hinner], renames⟩
  | app operation sort arguments ih =>
    simp only [match?_app_app, and_self, if_true]
    -- the bindings grow from argument to argument, and stay a renaming
    induction arguments generalizing bindings with
    | nil => exact ⟨bindings, matchArguments_nil _ _, renames⟩
    | cons t ts ihRest =>
      obtain ⟨between, hfirst, hbetween⟩ := ih t (by simp) renames
      obtain ⟨behind, hrest, hbehind⟩ := ihRest (fun t ht => ih t (by simp [ht])) hbetween
      exact ⟨behind, by rw [matchArguments_cons, hfirst]; exact hrest, hbehind⟩

/-- A term matches itself. -/
theorem match?_self (t : Term) : ∃ behind, t.match? ∅ t = some behind := by
  have hempty : ∀ name term, (∅ : Bindings).get? name = some term → term.isVariable := by simp
  obtain ⟨behind, h, _⟩ := match?_self_of_renaming t hempty
  exact ⟨behind, h⟩

/-- A pattern matches its instance under any assignment that agrees with the
    bindings so far, and binds its variables to what they are assigned. -/
theorem match?_instance (pattern : Term) {bindings : Bindings} {assignment : String → Term}
    (agrees : bindings.Agrees assignment) :
    ∃ behind, pattern.match? bindings (pattern.instantiate assignment) = some behind ∧
      ∀ name, behind.get? name =
        if name ∈ pattern.variableNames then some (assignment name) else bindings.get? name := by
  induction pattern using Term.induct generalizing bindings with
  | var name sort =>
    rw [match?_var, instantiate, variableNames]
    cases hname : bindings.get? name with
    | none =>
      refine ⟨_, rfl, ?_⟩
      intro other
      rw [Bindings.get?_insert]
      by_cases hother : other = name
      · simp [hother]
      · simp [hother]
    | some bound =>
      -- the variable stood before: its image is what it was bound to
      obtain ⟨inner, hinner⟩ := match?_self bound
      have himage := agrees name bound hname
      refine ⟨bindings, by simp [himage, hinner], ?_⟩
      intro other
      by_cases hother : other = name
      · rw [hother, hname, himage]
        simp
      · simp [hother]
  | app operation sort patterns ih =>
    simp only [instantiate, variableNames, match?_app_app, true_and]
    rw [if_pos (by rw [instantiateAll_eq_map, List.length_map])]
    induction patterns generalizing bindings with
    | nil => exact ⟨bindings, matchArguments_nil _ _, by simp [variableNamesAll]⟩
    | cons pattern patterns ihRest =>
      obtain ⟨between, hfirst, hbetween⟩ := ih pattern (by simp) agrees
      -- what the first argument binds is what the assignment gives
      have hagrees : between.Agrees assignment := by
        intro name term h
        rw [hbetween] at h
        split at h
        · exact Option.some.inj h
        · exact agrees name term h
      obtain ⟨behind, hrest, hbehind⟩ := ihRest (fun t ht => ih t (by simp [ht])) hagrees
      refine ⟨behind, by rw [instantiateAll, matchArguments_cons, hfirst]; exact hrest, ?_⟩
      intro name
      rw [hbehind, hbetween]
      by_cases hname : name ∈ variableNamesAll patterns
      · simp [variableNamesAll, hname]
      · simp [variableNamesAll, hname]

/-! ## What is matched is an instance -/

/-- A ground term matches nothing but itself. -/
theorem eq_of_match?_ground {pattern candidate : Term} {bindings behind : Bindings}
    (h : pattern.match? bindings candidate = some behind) (ground : pattern.isGround) :
    candidate = pattern := by
  revert ground
  refine match?_induct (fun pattern _ candidate _ => pattern.isGround → candidate = pattern)
    (fun patterns _ candidates _ => (∀ t ∈ patterns, t.isGround) → candidates = patterns)
    ?fresh ?bound ?app ?nil ?cons h
  case fresh =>
    intro name sort bindings candidate _ ground
    simp [isGround] at ground
  case bound =>
    intro name sort bindings candidate term inner _ _ ground
    simp [isGround] at ground
  case app =>
    intro operation sort patterns bindings arguments behind _ ih ground
    rw [isGround, allGround_iff] at ground
    rw [ih ground]
  case nil =>
    intro bindings _
    rfl
  case cons =>
    intro pattern patterns bindings candidate candidates between behind _ _ ihFirst ihRest ground
    rw [ihFirst (ground pattern (by simp)), ihRest fun t ht => ground t (by simp [ht])]

/-- A candidate that is matched is the instance of the pattern under the bindings,
    if the terms of those variables are ground that stand in the pattern more than
    once, or were bound before. -/
theorem instantiate_of_match? {pattern candidate : Term} {bindings behind : Bindings}
    (h : pattern.match? bindings candidate = some behind) {assignment : String → Term}
    (agrees : behind.Agrees assignment)
    (ground : ∀ name ∈ pattern.variableNames,
      bindings.contains name ∨ 1 < pattern.variableNames.count name → (assignment name).isGround) :
    pattern.instantiate assignment = candidate := by
  revert agrees ground
  refine match?_induct
    (fun pattern bindings candidate behind => behind.Agrees assignment →
      (∀ name ∈ pattern.variableNames,
        bindings.contains name ∨ 1 < pattern.variableNames.count name →
        (assignment name).isGround) →
      pattern.instantiate assignment = candidate)
    (fun patterns bindings candidates behind => behind.Agrees assignment →
      (∀ name ∈ variableNamesAll patterns,
        bindings.contains name ∨ 1 < (variableNamesAll patterns).count name →
        (assignment name).isGround) →
      instantiateAll assignment patterns = candidates)
    ?fresh ?bound ?app ?nil ?cons h
  case fresh =>
    intro name sort bindings candidate _ agrees _
    exact agrees name candidate (Bindings.get?_insert_self bindings name candidate)
  case bound =>
    -- what stood there first is ground, so the same stands here
    intro name sort bindings candidate term inner hname hinner agrees ground
    have himage := agrees name term hname
    have hground : term.isGround := by
      rw [← himage]
      exact ground name (by simp [variableNames]) (.inl (by simp [Bindings.contains, hname]))
    rw [instantiate, himage, eq_of_match?_ground hinner hground]
  case app =>
    intro operation sort patterns bindings arguments behind _ ih agrees ground
    rw [instantiate, ih agrees ground]
  case nil =>
    intro bindings _ _
    rfl
  case cons =>
    intro pattern patterns bindings candidate candidates between behind hfirst hextends
      ihFirst ihRest agrees ground
    simp only [variableNamesAll, List.mem_append, List.count_append] at ground
    have hpattern : pattern.instantiate assignment = candidate := by
      refine ihFirst (hextends.agrees agrees) fun name hname hagain => ?_
      refine ground name (.inl hname) (hagain.imp_right fun hcount => ?_)
      omega
    have hpatterns : instantiateAll assignment patterns = candidates := by
      refine ihRest agrees fun name hname hagain => ?_
      refine ground name (.inr hname) ?_
      rw [contains_of_match? hfirst] at hagain
      -- a name of the first pattern stands there and here
      have hhere := List.count_pos_iff.mpr hname
      rcases hagain with (hthere | hbefore) | hcount
      · have hthere := List.count_pos_iff.mpr hthere
        exact .inr (by omega)
      · exact .inl hbefore
      · exact .inr (by omega)
    rw [instantiateAll, hpattern, hpatterns]

/-- What a match of a ground candidate binds is ground. -/
theorem ground_of_match? {pattern candidate : Term} {bindings behind : Bindings}
    (h : pattern.match? bindings candidate = some behind) (ground : candidate.isGround)
    (hground : bindings.Ground) : behind.Ground := by
  revert ground hground
  refine match?_induct
    (fun _ bindings candidate behind => candidate.isGround → bindings.Ground → behind.Ground)
    (fun _ bindings candidates behind =>
      (∀ t ∈ candidates, t.isGround) → bindings.Ground → behind.Ground)
    ?fresh ?bound ?app ?nil ?cons h
  case fresh =>
    intro name sort bindings candidate _ ground hground other term h
    rw [Bindings.get?_insert] at h
    split at h
    · rw [← Option.some.inj h]
      exact ground
    · exact hground other term h
  case bound =>
    intro name sort bindings candidate term inner _ _ _ hground
    exact hground
  case app =>
    intro operation sort patterns bindings arguments behind _ ih ground
    rw [isGround, allGround_iff] at ground
    exact ih ground
  case nil =>
    intro bindings _ hground
    exact hground
  case cons =>
    intro pattern patterns bindings candidate candidates between behind _ _ ihFirst ihRest
      ground hground
    have hbetween := ihFirst (ground candidate (by simp)) hground
    exact ihRest (fun t ht => ground t (by simp [ht])) hbetween

/-- A match of a ground candidate under ground bindings leaves ground bindings,
    and has found an instance of the pattern. -/
theorem match?_sound {pattern candidate : Term} {bindings behind : Bindings}
    (h : pattern.match? bindings candidate = some behind) (ground : candidate.isGround)
    (hground : bindings.Ground) :
    behind.Ground ∧ ∀ assignment, behind.Agrees assignment →
      pattern.instantiate assignment = candidate := by
  have hbehind := ground_of_match? h ground hground
  refine ⟨hbehind, fun assignment agrees => instantiate_of_match? h agrees ?_⟩
  intro name hname _
  obtain ⟨term, hget⟩ := Option.isSome_iff_exists.mp
    ((contains_of_match? h name).mpr (.inl hname))
  rw [agrees name term hget]
  exact hbehind name term hget

end Term

namespace Bindings

/-! ## Attempts -/

variable {bindings behind : Bindings} {pattern candidate : Term}

theorem attempt_of_match? (h : pattern.match? bindings candidate = some behind) :
    bindings.attempt pattern candidate = (true, behind) := by
  simp only [attempt, h]

theorem exists_match?_of_attempt (h : (bindings.attempt pattern candidate).1 = true) :
    ∃ behind, pattern.match? bindings candidate = some behind := by
  unfold attempt at h
  cases hmatch : pattern.match? bindings candidate with
  | none => simp [hmatch] at h
  | some behind => exact ⟨behind, rfl⟩

/-- Matching decides instances. A pattern matches each of its instances under an
    assignment that the bindings agree with, and leaves these bindings together
    with what the assignment gives to the variables of the pattern. A ground
    candidate that is matched under ground bindings is such an instance. A match
    that fails leaves no bindings at all. So a ground term matches itself alone. -/
theorem attempt_decides_instances (pattern candidate : Term) (bindings : Bindings) :
    (∀ assignment, bindings.Agrees assignment → pattern.instantiate assignment = candidate →
      (bindings.attempt pattern candidate).1 = true ∧
      ∀ name, (bindings.attempt pattern candidate).2.get? name =
        if name ∈ pattern.variableNames then some (assignment name) else bindings.get? name) ∧
    (candidate.isGround → bindings.Ground → (bindings.attempt pattern candidate).1 = true →
      ∃ assignment, bindings.Agrees assignment ∧ pattern.instantiate assignment = candidate) ∧
    ((bindings.attempt pattern candidate).1 = false →
      (bindings.attempt pattern candidate).2 = ∅) ∧
    (pattern.isGround → candidate.isGround →
      (((∅ : Bindings).attempt pattern candidate).1 = true ↔ pattern = candidate)) := by
  refine ⟨?complete, ?sound, ?failed, ?ground⟩
  case complete =>
    intro assignment agrees hinstance
    obtain ⟨behind, hmatch, hbehind⟩ := pattern.match?_instance agrees
    rw [hinstance] at hmatch
    rw [attempt_of_match? hmatch]
    exact ⟨rfl, hbehind⟩
  case sound =>
    intro ground hground hmatched
    obtain ⟨behind, hmatch⟩ := exists_match?_of_attempt hmatched
    obtain ⟨-, hinstance⟩ := Term.match?_sound hmatch ground hground
    have agrees := behind.agrees_assignment
    exact ⟨behind.assignment, (Term.match?_extends hmatch).agrees agrees, hinstance _ agrees⟩
  case failed =>
    intro hfailed
    cases hmatch : pattern.match? bindings candidate with
    | none => simp only [attempt, hmatch]
    | some behind =>
      rw [attempt_of_match? hmatch] at hfailed
      cases hfailed
  case ground =>
    intro hpattern _
    constructor
    · intro hmatched
      obtain ⟨behind, hmatch⟩ := exists_match?_of_attempt hmatched
      exact (Term.eq_of_match?_ground hmatch hpattern).symm
    · rintro rfl
      obtain ⟨behind, hmatch⟩ := pattern.match?_self
      rw [attempt_of_match? hmatch]

/-- The pattern `eq(X, X)` matches two zeros, also where `X` is bound to zero
    before, and then `Y` keeps its term; it does not match zero and one, and then
    `Y` is lost. -/
theorem equal_pair_decided :
    let zero : Term := .constant "zero" "Number"
    let one : Term := .app "inc" "Number" [zero]
    let pair : Term → Term → Term := fun s t => .app "eq" "bool" [s, t]
    let pattern := pair (.var "X" "Number") (.var "X" "Number")
    let bindings := ((∅ : Bindings).insert "Y" one).insert "X" zero
    ((bindings.attempt pattern (pair zero zero)).1 = true ∧
      (bindings.attempt pattern (pair zero zero)).2.get? "X" = some zero ∧
      (bindings.attempt pattern (pair zero zero)).2.get? "Y" = some one) ∧
    (∃ assignment, bindings.Agrees assignment ∧
      pattern.instantiate assignment = pair zero zero) ∧
    (bindings.attempt pattern (pair zero one)).2 = ∅ ∧
    (((∅ : Bindings).attempt (pair zero zero) (pair zero one)).1 = true ↔
      pair zero zero = pair zero one) := by
  intro zero one pair pattern bindings
  obtain ⟨hcomplete, hsound, -, -⟩ := attempt_decides_instances pattern (pair zero zero) bindings
  obtain ⟨-, -, hfailed, -⟩ := attempt_decides_instances pattern (pair zero one) bindings
  obtain ⟨-, -, -, hground⟩ := attempt_decides_instances (pair zero zero) (pair zero one) ∅
  obtain ⟨hmatched, hbehind⟩ := hcomplete bindings.assignment bindings.agrees_assignment rfl
  have hbindings : bindings.Ground := by
    intro name term h
    simp only [bindings, get?_insert] at h
    split at h
    · cases h
      rfl
    · split at h <;> cases h
      rfl
  refine ⟨⟨hmatched, ?_, ?_⟩, hsound rfl hbindings hmatched, hfailed rfl, hground rfl rfl⟩
  · rw [hbehind]
    rfl
  · rw [hbehind]
    rfl

end Bindings

end Equational
