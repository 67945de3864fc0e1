import Mathlib.Data.List.Forall2

/-! # Computations that succeed

    A computation of several steps succeeds when each of its steps does, and
    the same step on every item of a list succeeds when it does on each item.
-/

namespace Equational

variable {ε α β : Type}

theorem mapError_ok {δ : Type} (f : ε → δ) (value : α) :
    (Except.ok value : Except ε α).mapError f = .ok value := rfl

theorem mapError_error {δ : Type} (f : ε → δ) (error : ε) :
    (Except.error error : Except ε α).mapError f = .error (f error) := rfl

theorem mapError_eq_ok_iff {δ : Type} {f : ε → δ} {first : Except ε α} {result : α} :
    first.mapError f = .ok result ↔ first = .ok result := by
  cases first with
  | error error => simp [Except.mapError]
  | ok value => simp [Except.mapError]

theorem mapError_eq_error_iff {δ : Type} {f : ε → δ} {first : Except ε α} {error : δ} :
    first.mapError f = .error error ↔ ∃ found, first = .error found ∧ f found = error := by
  cases first with
  | error other => simp [Except.mapError]
  | ok value => simp [Except.mapError]

theorem map_eq_ok_iff {f : α → β} {first : Except ε α} {result : β} :
    first.map f = .ok result ↔ ∃ value, first = .ok value ∧ f value = result := by
  cases first with
  | error error => simp [Except.map]
  | ok value => simp [Except.map]

theorem map_eq_error_iff {f : α → β} {first : Except ε α} {error : ε} :
    first.map f = .error error ↔ first = .error error := by
  cases first with
  | error other => simp [Except.map]
  | ok value => simp [Except.map]

theorem bind_eq_ok_iff {first : Except ε α} {next : α → Except ε β} {result : β} :
    (first >>= next) = .ok result ↔ ∃ value, first = .ok value ∧ next value = .ok result := by
  cases first with
  | error error => simp [bind, Except.bind]
  | ok value => simp [bind, Except.bind]

/-- Of two steps the first that fails decides. -/
theorem bind_eq_error_iff {first : Except ε α} {next : α → Except ε β} {error : ε} :
    (first >>= next) = .error error ↔
      first = .error error ∨ ∃ value, first = .ok value ∧ next value = .error error := by
  cases first with
  | error other => simp [bind, Except.bind]
  | ok value => simp [bind, Except.bind]

/-- A check comes before what it guards. -/
theorem check_bind_eq_ok_iff {check : Except ε Unit} {next : Unit → Except ε β} {result : β} :
    (check >>= next) = .ok result ↔ check = .ok () ∧ next () = .ok result := by
  rw [bind_eq_ok_iff]
  exact ⟨fun ⟨_, hcheck, hnext⟩ => ⟨hcheck, hnext⟩, fun h => ⟨(), h⟩⟩

/-- The results stand beside the items that they are of. -/
theorem mapM_eq_ok_iff {step : α → Except ε β} {items : List α} {results : List β} :
    items.mapM step = .ok results ↔
      List.Forall₂ (fun item result => step item = .ok result) items results := by
  induction items generalizing results with
  | nil =>
    rw [List.mapM_nil, List.forall₂_nil_left_iff]
    exact ⟨fun h => by cases h; rfl, fun h => by rw [h]; rfl⟩
  | cons item items ih =>
    rw [List.mapM_cons, List.forall₂_cons_left_iff]
    constructor
    · intro h
      obtain ⟨result, hitem, h⟩ := bind_eq_ok_iff.mp h
      obtain ⟨rest, hitems, h⟩ := bind_eq_ok_iff.mp h
      cases h
      exact ⟨result, rest, hitem, ih.mp hitems, rfl⟩
    · intro h
      obtain ⟨result, rest, hitem, hitems, rfl⟩ := h
      exact bind_eq_ok_iff.mpr ⟨result, hitem, bind_eq_ok_iff.mpr ⟨rest, ih.mpr hitems, rfl⟩⟩

/-- Of the steps along a list the first that fails decides, and those before it
    have succeeded. -/
theorem foldlM_eq_error_iff {step : β → α → Except ε β} {items : List α} {start : β}
    {error : ε} :
    items.foldlM step start = .error error ↔
      ∃ before item after state, items = before ++ item :: after ∧
        before.foldlM step start = .ok state ∧ step state item = .error error := by
  induction items generalizing start with
  | nil =>
    constructor
    · intro h
      cases h
    · intro h
      obtain ⟨before, item, after, _, hitems, -⟩ := h
      simp at hitems
  | cons first items ih =>
    rw [List.foldlM_cons, bind_eq_error_iff]
    constructor
    · intro h
      rcases h with hfirst | ⟨next, hfirst, hrest⟩
      · exact ⟨[], first, items, start, rfl, rfl, hfirst⟩
      · obtain ⟨before, item, after, state, rfl, hbefore, hitem⟩ := ih.mp hrest
        refine ⟨first :: before, item, after, state, rfl, ?_, hitem⟩
        rw [List.foldlM_cons]
        exact bind_eq_ok_iff.mpr ⟨next, hfirst, hbefore⟩
    · intro h
      obtain ⟨before, item, after, state, hitems, hbefore, hitem⟩ := h
      cases before with
      | nil =>
        -- the first step is the one that fails
        cases hitems
        cases hbefore
        exact .inl hitem
      | cons _ before =>
        obtain ⟨rfl, rfl⟩ := List.cons.inj hitems
        rw [List.foldlM_cons] at hbefore
        obtain ⟨next, hfirst, hbefore⟩ := bind_eq_ok_iff.mp hbefore
        exact .inr ⟨next, hfirst, ih.mpr ⟨before, item, after, state, rfl, hbefore, hitem⟩⟩

end Equational
