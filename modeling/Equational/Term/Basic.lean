/-! # Terms

    A **term** is an operation applied to a list of terms, or a variable. Each
    carries a sort: for an application it is the sort whose specification owns
    the operation, which need not be the sort of the value it denotes.

    Recursion over a term goes through its list of arguments, so a function on
    terms comes with a companion on lists of terms.
-/

namespace Equational

/-- A value or a pattern. -/
inductive Term where
  | app (operation sort : String) (arguments : List Term)
  | var (name sort : String)
deriving Repr

namespace Term

/-- Induction with a hypothesis for every argument. -/
theorem induct {motive : Term → Prop}
    (app : ∀ operation sort arguments, (∀ t ∈ arguments, motive t) →
      motive (.app operation sort arguments))
    (var : ∀ name sort, motive (.var name sort)) (t : Term) : motive t :=
  @Term.rec motive (fun ts => ∀ t ∈ ts, motive t) app var
    (fun _ h => absurd h List.not_mem_nil)
    (fun _ _ ihHead ihTail t ht => by
      rcases List.mem_cons.mp ht with rfl | ht
      · exact ihHead
      · exact ihTail t ht) t

/-! ## Equality -/

mutual
/-- Terms are equal when they have the same shape and the same names. -/
def decEq : (s t : Term) → Decidable (s = t)
  | .app f s ss, .app g r ts =>
    if hf : f = g then
      if hs : s = r then
        match decEqAll ss ts with
        | .isTrue h => .isTrue (by rw [hf, hs, h])
        | .isFalse h => .isFalse (by simp [h])
      else .isFalse (by simp [hs])
    else .isFalse (by simp [hf])
  | .var x s, .var y r =>
    if hx : x = y then
      if hs : s = r then .isTrue (by rw [hx, hs]) else .isFalse (by simp [hs])
    else .isFalse (by simp [hx])
  | .app _ _ _, .var _ _ => .isFalse (by simp)
  | .var _ _, .app _ _ _ => .isFalse (by simp)
/-- The companion of `decEq` on argument lists. -/
def decEqAll : (ss ts : List Term) → Decidable (ss = ts)
  | [], [] => .isTrue rfl
  | s :: ss, t :: ts =>
    match decEq s t with
    | .isTrue h =>
      match decEqAll ss ts with
      | .isTrue hs => .isTrue (by rw [h, hs])
      | .isFalse hs => .isFalse (by simp [hs])
    | .isFalse h => .isFalse (by simp [h])
  | [], _ :: _ => .isFalse (by simp)
  | _ :: _, [] => .isFalse (by simp)
end

instance : DecidableEq Term := decEq

/-! ## Parts -/

/-- An operation without arguments. -/
def constant (operation sort : String) : Term :=
  .app operation sort []

/-- The operation of an application, or the variable's name. -/
def name : Term → String
  | .app operation _ _ => operation
  | .var name _ => name

/-- The sort that a term is written in. -/
def sort : Term → String
  | .app _ sort _ => sort
  | .var _ sort => sort

/-- The arguments of an application; a variable has none. -/
def arguments : Term → List Term
  | .app _ _ arguments => arguments
  | .var _ _ => []

/-- Whether a term is an operation with its arguments. -/
def isApplication : Term → Bool
  | .app _ _ _ => true
  | .var _ _ => false

/-- Whether a term is a variable. -/
def isVariable : Term → Bool
  | .app _ _ _ => false
  | .var _ _ => true

mutual
/-- Whether a term holds no variable. -/
def isGround : Term → Bool
  | .app _ _ arguments => allGround arguments
  | .var _ _ => false
/-- The companion of `isGround` on argument lists. -/
def allGround : List Term → Bool
  | [] => true
  | t :: ts => isGround t && allGround ts
end

theorem allGround_iff {ts : List Term} : allGround ts ↔ ∀ t ∈ ts, t.isGround := by
  induction ts with
  | nil => simp [allGround]
  | cons t ts ih => simp [allGround, ih]

end Term

end Equational
