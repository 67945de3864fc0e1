import Equational.Proofs.Except
import Equational.Term.Bindings

/-! # Instances

    An **assignment** gives a term to every variable name. The instance of a
    term under an assignment has every variable replaced, by its name. It
    depends on what is assigned to the variables that occur in the term only
    (`instantiate_congr`), and is ground when this is (`isGround_instantiate`).

    Substitution by bindings is the instance under any assignment that agrees
    with them, unless some variable is not bound; then it fails at the first of
    these (`substitute_eq`).
-/

namespace Equational

namespace Term

/-! ## Variables and instances -/

mutual
/-- The names of the variables, from left to right, with repetitions. -/
def variableNames : Term → List String
  | .app _ _ arguments => variableNamesAll arguments
  | .var name _ => [name]
/-- The companion of `variableNames` on argument lists. -/
def variableNamesAll : List Term → List String
  | [] => []
  | t :: ts => variableNames t ++ variableNamesAll ts
end

mutual
/-- The variables with their sorts, in the same order and as often. -/
def occurrences : Term → List (String × String)
  | .app _ _ arguments => occurrencesAll arguments
  | .var name sort => [(name, sort)]
/-- The companion of `occurrences` on argument lists. -/
def occurrencesAll : List Term → List (String × String)
  | [] => []
  | t :: ts => occurrences t ++ occurrencesAll ts
end

mutual
/-- The term with every variable replaced by what its name is assigned. -/
def instantiate (assignment : String → Term) : Term → Term
  | .app operation sort arguments => .app operation sort (instantiateAll assignment arguments)
  | .var name _ => assignment name
/-- The companion of `instantiate` on argument lists. -/
def instantiateAll (assignment : String → Term) : List Term → List Term
  | [] => []
  | t :: ts => instantiate assignment t :: instantiateAll assignment ts
end

variable {assignment other : String → Term}

theorem mem_variableNamesAll {name : String} {ts : List Term} :
    name ∈ variableNamesAll ts ↔ ∃ t ∈ ts, name ∈ t.variableNames := by
  induction ts with
  | nil => simp [variableNamesAll]
  | cons t ts ih => simp [variableNamesAll, ih]

theorem map_fst_occurrences (t : Term) : t.occurrences.map Prod.fst = t.variableNames := by
  induction t using Term.induct with
  | var name sort => rfl
  | app operation sort arguments ih =>
    rw [occurrences, variableNames]
    induction arguments with
    | nil => rfl
    | cons t ts ihRest =>
      rw [occurrencesAll, variableNamesAll, List.map_append, ih t (by simp)]
      rw [ihRest fun u hu => ih u (by simp [hu])]

/-- What is asked of the names of all variables is asked of each variable. -/
theorem forall_variableNames {t : Term} {motive : String → Prop} :
    (∀ name ∈ t.variableNames, motive name) ↔ ∀ v ∈ t.occurrences, motive v.1 := by
  rw [← map_fst_occurrences, List.forall_mem_map]

theorem instantiateAll_eq_map (ts : List Term) :
    instantiateAll assignment ts = ts.map (instantiate assignment) := by
  induction ts with
  | nil => rfl
  | cons t ts ih => rw [instantiateAll, ih, List.map_cons]

/-- An instance is decided by the variables that occur. -/
theorem instantiate_congr {t : Term} (h : ∀ name ∈ t.variableNames, assignment name = other name) :
    t.instantiate assignment = t.instantiate other := by
  induction t using Term.induct with
  | var name sort => exact h name (by simp [variableNames])
  | app operation sort arguments ih =>
    simp only [instantiate, instantiateAll_eq_map, Term.app.injEq, true_and]
    apply List.map_congr_left
    intro a ha
    exact ih a ha fun name hname => h name (mem_variableNamesAll.mpr ⟨a, ha, hname⟩)

/-! ## Ground terms -/

/-- An instance is ground when all that is put into it is. -/
theorem isGround_instantiate {t : Term} (h : ∀ name ∈ t.variableNames, (assignment name).isGround) :
    (t.instantiate assignment).isGround := by
  induction t using Term.induct with
  | var name sort => exact h name (by simp [variableNames])
  | app operation sort arguments ih =>
    rw [instantiate, isGround, allGround_iff, instantiateAll_eq_map]
    intro u hu
    obtain ⟨a, ha, rfl⟩ := List.mem_map.mp hu
    exact ih a ha fun name hname => h name (mem_variableNamesAll.mpr ⟨a, ha, hname⟩)

end Term

namespace Bindings

/-- What is bound is assigned the same term. -/
def Agrees (bindings : Bindings) (assignment : String → Term) : Prop :=
  ∀ name term, bindings.get? name = some term → assignment name = term

/-- What was bound before is bound to the same term behind. -/
def Extends (behind bindings : Bindings) : Prop :=
  ∀ name term, bindings.get? name = some term → behind.get? name = some term

/-- Every bound term is ground. -/
def Ground (bindings : Bindings) : Prop :=
  ∀ name term, bindings.get? name = some term → term.isGround

theorem Extends.refl (bindings : Bindings) : bindings.Extends bindings :=
  fun _ _ h => h

theorem Extends.trans {bindings between behind : Bindings} (h : behind.Extends between)
    (hbetween : between.Extends bindings) : behind.Extends bindings :=
  fun name term hname => h name term (hbetween name term hname)

theorem Extends.agrees {bindings behind : Bindings} {assignment : String → Term}
    (h : behind.Extends bindings) (agrees : behind.Agrees assignment) :
    bindings.Agrees assignment :=
  fun name term hname => agrees name term (h name term hname)

theorem agrees_empty (assignment : String → Term) : (∅ : Bindings).Agrees assignment := by
  intro name term h
  simp at h

theorem ground_empty : (∅ : Bindings).Ground := by
  intro name term h
  simp at h

/-- The assignment that bindings give, with some term for all other names. -/
def assignment (bindings : Bindings) (name : String) : Term :=
  (bindings.get? name).getD (.var name "")

theorem agrees_assignment (bindings : Bindings) : bindings.Agrees bindings.assignment := by
  intro name term h
  simp [assignment, h]

/-- The first of these variables that no term is bound to. -/
def unbound? (bindings : Bindings) (occurrences : List (String × String)) :
    Option (String × String) :=
  occurrences.find? fun v => !bindings.contains v.1

@[simp] theorem unbound?_singleton (bindings : Bindings) (name sort : String) :
    bindings.unbound? [(name, sort)] =
      if bindings.contains name then none else some (name, sort) := by
  by_cases h : bindings.contains name = true
  · simp [unbound?, h]
  · simp [unbound?, h]

@[simp] theorem unbound?_append (bindings : Bindings)
    (occurrences others : List (String × String)) :
    bindings.unbound? (occurrences ++ others) =
      (bindings.unbound? occurrences).or (bindings.unbound? others) :=
  List.find?_append

theorem unbound?_eq_none_iff {bindings : Bindings} {occurrences : List (String × String)} :
    bindings.unbound? occurrences = none ↔ ∀ v ∈ occurrences, bindings.contains v.1 := by
  simp [unbound?]

theorem get?_insert (bindings : Bindings) (name other : String) (term : Term) :
    (bindings.insert name term).get? other =
      if other = name then some term else bindings.get? other := by
  by_cases h : other = name
  · rw [if_pos h, h, get?_insert_self]
  · rw [if_neg h, get?_insert_of_ne bindings term h]

theorem contains_insert (bindings : Bindings) (name other : String) (term : Term) :
    (bindings.insert name term).contains other ↔ other = name ∨ bindings.contains other := by
  rw [contains, get?_insert, contains]
  by_cases h : other = name
  · simp [h]
  · simp [h]

/-- A name that was not bound can be bound. -/
theorem insert_extends {bindings : Bindings} {name : String} (h : bindings.get? name = none)
    (term : Term) : (bindings.insert name term).Extends bindings := by
  intro other bound hother
  have hne : other ≠ name := by
    rintro rfl
    rw [h] at hother
    cases hother
  rw [get?_insert_of_ne bindings term hne, hother]

end Bindings

namespace Term

/-! ## Substitution -/

variable {bindings : Bindings} {assignment : String → Term}

/-- A list of templates fails where its first template does that fails. -/
theorem substituteAll_eq {templates : List Term}
    (each : ∀ t ∈ templates, t.substitute bindings =
      match bindings.unbound? t.occurrences with
      | some (name, sort) => .error (.unboundVariable name sort)
      | none => .ok (t.instantiate assignment)) :
    substituteAll bindings templates =
      match bindings.unbound? (occurrencesAll templates) with
      | some (name, sort) => .error (.unboundVariable name sort)
      | none => .ok (instantiateAll assignment templates) := by
  induction templates with
  | nil => rfl
  | cons t ts ih =>
    have htail := ih fun u hu => each u (by simp [hu])
    rw [substituteAll, each t (by simp), occurrencesAll, Bindings.unbound?_append, instantiateAll]
    cases bindings.unbound? t.occurrences with
    | some v => rfl
    | none =>
      rw [Option.none_or]
      simp only [htail]
      cases bindings.unbound? (occurrencesAll ts) with
      | some v => rfl
      | none => rfl

/-- A substitution gives the instance of the template, or fails at the first
    variable, from left to right, that has no term. -/
theorem substitute_eq (agrees : bindings.Agrees assignment) (template : Term) :
    template.substitute bindings =
      match bindings.unbound? template.occurrences with
      | some (name, sort) => .error (.unboundVariable name sort)
      | none => .ok (template.instantiate assignment) := by
  induction template using Term.induct with
  | var name sort =>
    rw [substitute, occurrences, instantiate, Bindings.unbound?_singleton, Bindings.contains]
    cases hname : bindings.get? name with
    | none => rfl
    | some term =>
      rw [agrees name term hname]
      rfl
  | app operation sort arguments ih =>
    rw [substitute, occurrences, instantiate, substituteAll_eq ih]
    cases bindings.unbound? (occurrencesAll arguments) with
    | some v => rfl
    | none => rfl

/-- A substitution that succeeds has found a term for every variable, and gives
    the instance of the template. -/
theorem substitute_eq_ok_iff (agrees : bindings.Agrees assignment) {template result : Term} :
    template.substitute bindings = .ok result ↔
      (∀ name ∈ template.variableNames, bindings.contains name) ∧
        template.instantiate assignment = result := by
  rw [substitute_eq agrees, forall_variableNames, ← Bindings.unbound?_eq_none_iff]
  cases bindings.unbound? template.occurrences with
  | some v => simp
  | none => simp

end Term

end Equational
