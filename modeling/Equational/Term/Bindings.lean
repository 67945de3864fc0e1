import Equational.Error
import Equational.Term.Basic

/-! # Bindings and substitution

    **Bindings** give terms to variable names. A variable is known by its name
    alone, whatever sort it is written in. Substituting replaces every variable
    of a template by its term, and fails at the first variable, from left to
    right, that has none.
-/

namespace Equational

/-- A term for each of finitely many names. -/
structure Bindings where
  entries : List (String × Term)
  distinct : (entries.map Prod.fst).Nodup

namespace Bindings

/-- No name is bound. -/
def empty : Bindings :=
  ⟨[], List.nodup_nil⟩

instance : EmptyCollection Bindings := ⟨empty⟩

/-- The term of a name. -/
def get? (bindings : Bindings) (name : String) : Option Term :=
  bindings.entries.lookup name

/-- Whether a name has a term. -/
def contains (bindings : Bindings) (name : String) : Bool :=
  (bindings.get? name).isSome

/-- The number of names that are bound. -/
def size (bindings : Bindings) : Nat :=
  bindings.entries.length

/-- Whether no name is bound. -/
def isEmpty (bindings : Bindings) : Bool :=
  bindings.entries.isEmpty

/-- Binds a name, in place of the term it had. -/
def insert (bindings : Bindings) (name : String) (term : Term) : Bindings where
  entries := (name, term) :: bindings.entries.filter fun entry => entry.1 != name
  distinct := by
    have kept : ((bindings.entries.filter fun entry => entry.1 != name).map Prod.fst).Nodup :=
      bindings.distinct.sublist (List.filter_sublist.map _)
    simpa using kept

/-- The bindings of a list of names and terms; of two terms for a name the
    later one holds. -/
def ofList (entries : List (String × Term)) : Bindings :=
  entries.foldl (fun bindings entry => bindings.insert entry.1 entry.2) ∅

@[simp] theorem get?_empty (name : String) : (∅ : Bindings).get? name = none := rfl

@[simp] theorem get?_insert_self (bindings : Bindings) (name : String) (term : Term) :
    (bindings.insert name term).get? name = some term := by
  simp [get?, insert]

theorem lookup_filter_of_ne {name other : String} (h : other ≠ name)
    (entries : List (String × Term)) :
    (entries.filter fun entry => entry.1 != name).lookup other = entries.lookup other := by
  induction entries with
  | nil => rfl
  | cons entry rest ih =>
    obtain ⟨key, value⟩ := entry
    by_cases hk : key = name
    · -- the entry goes, and `other` was not looked up in it
      have hne : (other == name) = false := by simpa using h
      simp [hk, ih, List.lookup_cons, hne]
    · simp [hk, ih, List.lookup_cons]

theorem get?_insert_of_ne (bindings : Bindings) {name other : String} (term : Term)
    (h : other ≠ name) : (bindings.insert name term).get? other = bindings.get? other := by
  have hne : (other == name) = false := by simpa using h
  simp only [get?, insert, List.lookup_cons, hne]
  exact lookup_filter_of_ne h bindings.entries

end Bindings

namespace Term

mutual
/-- The term with every variable replaced by its binding. -/
def substitute (bindings : Bindings) : Term → Except RewriteError Term
  | .app operation sort arguments =>
    (substituteAll bindings arguments).map (.app operation sort)
  | .var name sort =>
    match bindings.get? name with
    | some term => .ok term
    | none => .error (.unboundVariable name sort)
/-- The companion of `substitute` on argument lists. -/
def substituteAll (bindings : Bindings) : List Term → Except RewriteError (List Term)
  | [] => .ok []
  | t :: ts =>
    match substitute bindings t with
    | .error error => .error error
    | .ok u => (substituteAll bindings ts).map (u :: ·)
end

end Term

end Equational
