import Equational.Proofs.Grammar.RoundTrip
import Equational.Proofs.Specification.Numbers
import Equational.Proofs.Term.Instance
import Equational.Session

/-! # Texts in a row

    Statements are read and evaluated one after the other, so a text can be cut
    between two of them at a line end:

    * **Reading**: nothing separates statements, and a line end changes no
      lexeme. What two texts spell, they spell in a row, and the sentences of
      the one come before those of the other.
    * **Evaluation**: a statement finds the session as the ones before it left
      it, and nothing else is passed on; each has the whole allowance. The
      statements that were performed are kept in a **trace** with their values.

    An evaluation that fails leaves the session as the trace before the failing
    statement left it (`evaluateAll_eq_error_iff`).
-/

namespace Equational

/-! ## Reading -/

/-- Texts of statements with a line end between them. -/
theorem Statement.parse_append {first second defaultSort : String} {literals : List Literal}
    {statements more : List Statement}
    (hfirst : parse first defaultSort literals = .ok statements)
    (hsecond : parse second defaultSort literals = .ok more) :
    parse (first ++ "\n" ++ second) defaultSort literals = .ok (statements ++ more) := by
  obtain ⟨sentences, hne, hspells, rfl⟩ := parse_eq_ok_iff.mp hfirst
  obtain ⟨others, -, hothers, rfl⟩ := parse_eq_ok_iff.mp hsecond
  refine parse_eq_ok_iff.mpr ⟨sentences ++ others, by simp [hne], ?_, by simp⟩
  -- the line end is the end of any word before it
  have hrow := hspells.append hothers.lineEnd rfl
  simpa using hrow

/-! ## Evaluation -/

namespace Session

/-- Goes on from the session that an evaluation left, unless that one failed. -/
def andThen (first : Except Stop Value × Session) (next : Session → Except Stop Value × Session) :
    Except Stop Value × Session :=
  match first with
  | (.ok _, after) => next after
  | (.error reason, after) => (.error reason, after)

/-- `Performs environment fuel session trace after`: the statements of the trace
    have their values, one after the other, and the assignments among them turn
    `session` into `after`. -/
inductive Performs (environment : Environment) (fuel : Nat) :
    Session → List (Statement × Value) → Session → Prop where
  | nil {session : Session} : Performs environment fuel session [] session
  | cons {session after : Session} {statement : Statement} {value : Value}
      {trace : List (Statement × Value)} :
      session.evaluateTerm environment fuel statement.term = .ok value →
      Performs environment fuel (session.assign value statement) trace after →
      Performs environment fuel session ((statement, value) :: trace) after

/-- The terms that a trace assigns to a name, in order. -/
def termsOf (name : String) (trace : List (Statement × Value)) : List Term :=
  trace.filterMap fun entry =>
    match entry.1 with
    | .assignment other _ => if other = name then some entry.2.term else none
    | .expression _ => none

variable {environment : Environment} {fuel : Nat} {session after : Session}

/-- A name has the last term that was assigned to it, or else the one it had. -/
theorem Performs.assigned? {trace : List (Statement × Value)}
    (h : Performs environment fuel session trace after) (name : String) :
    after.assigned? name = (termsOf name trace).getLast?.or (session.assigned? name) := by
  induction h with
  | nil => rfl
  | @cons session after statement value trace _ _ ih =>
    rw [ih]
    cases statement with
    | expression term => rfl
    | assignment other term =>
      have hassign : (session.assign value (.assignment other term)).assigned? name =
          if name = other then some value.term else session.assigned? name :=
        Bindings.get?_insert session.bindings other name value.term
      rw [hassign]
      by_cases hname : name = other
      · -- its own term comes before the later ones
        have hterms : termsOf name ((.assignment other term, value) :: trace) =
            value.term :: termsOf name trace := by
          simp [termsOf, hname]
        rw [hterms, if_pos hname, List.getLast?_cons]
        cases (termsOf name trace).getLast? <;> rfl
      · have hterms : termsOf name ((.assignment other term, value) :: trace) =
            termsOf name trace := by
          simp [termsOf, Ne.symm hname]
        rw [hterms, if_neg hname]

/-- A statement that fails ends the evaluation. -/
theorem evaluateAll_of_error {statement : Statement} {reason : Stop}
    (h : session.evaluateTerm environment fuel statement.term = .error reason)
    (rest : List Statement) :
    session.evaluateAll environment fuel (statement :: rest) = (.error reason, session) := by
  rw [evaluateAll, h]

/-- The last statement gives the value. -/
theorem evaluateAll_singleton {statement : Statement} {value : Value}
    (h : session.evaluateTerm environment fuel statement.term = .ok value) :
    session.evaluateAll environment fuel [statement] =
      (.ok value, session.assign value statement) := by
  rw [evaluateAll, h]

/-- With more to come, a value is only assigned. -/
theorem evaluateAll_cons {statement : Statement} {value : Value}
    (h : session.evaluateTerm environment fuel statement.term = .ok value)
    {rest : List Statement} (hne : rest ≠ []) :
    session.evaluateAll environment fuel (statement :: rest) =
      (session.assign value statement).evaluateAll environment fuel rest := by
  cases rest with
  | nil => contradiction
  | cons next rest => rw [evaluateAll, h]

/-- Statements in a row are evaluated in two parts as they are in one. -/
theorem evaluateAll_append {statements more : List Statement} (hne : statements ≠ [])
    (hmore : more ≠ []) :
    session.evaluateAll environment fuel (statements ++ more) =
      andThen (session.evaluateAll environment fuel statements)
        (·.evaluateAll environment fuel more) := by
  induction statements generalizing session with
  | nil => contradiction
  | cons statement rest ih =>
    rw [List.cons_append]
    cases hvalue : session.evaluateTerm environment fuel statement.term with
    | error reason =>
      rw [evaluateAll_of_error hvalue, evaluateAll_of_error hvalue]
      rfl
    | ok value =>
      rw [evaluateAll_cons hvalue (by simp [hmore])]
      by_cases hrest : rest = []
      · subst hrest
        rw [evaluateAll_singleton hvalue]
        rfl
      · rw [evaluateAll_cons hvalue hrest, ih hrest]

/-- Statements fail where the first of them does, with those before it
    performed. -/
theorem evaluateAll_eq_error_iff {statements : List Statement} (hne : statements ≠ [])
    {reason : Stop} :
    session.evaluateAll environment fuel statements = (.error reason, after) ↔
      ∃ trace failing rest, statements = trace.map Prod.fst ++ failing :: rest ∧
        Performs environment fuel session trace after ∧
        after.evaluateTerm environment fuel failing.term = .error reason := by
  constructor
  · intro h
    induction statements generalizing session with
    | nil => contradiction
    | cons statement rest ih =>
      cases hvalue : session.evaluateTerm environment fuel statement.term with
      | error first =>
        rw [evaluateAll_of_error hvalue] at h
        cases h
        exact ⟨[], statement, rest, rfl, .nil, hvalue⟩
      | ok value =>
        by_cases hrest : rest = []
        · -- the last statement has a value
          subst hrest
          rw [evaluateAll_singleton hvalue] at h
          cases h
        · rw [evaluateAll_cons hvalue hrest] at h
          obtain ⟨trace, failing, more, rfl, hperforms, hfails⟩ := ih hrest h
          exact ⟨(statement, value) :: trace, failing, more, rfl, .cons hvalue hperforms, hfails⟩
  · intro h
    obtain ⟨trace, failing, rest, rfl, hperforms, hfails⟩ := h
    induction hperforms with
    | nil => exact evaluateAll_of_error hfails rest
    | cons hvalue _ ih =>
      rw [List.map_cons, List.cons_append, evaluateAll_cons hvalue (by simp)]
      exact ih (by simp) hfails

/-! ## Texts -/

theorem evaluate_of_parse {text defaultSort : String} {statements : List Statement}
    (h : Statement.parse text defaultSort environment.literals = .ok statements) :
    session.evaluate environment fuel text defaultSort =
      session.evaluateAll environment fuel statements := by
  rw [evaluate, h]

/-- Texts with a line end between them have the statements of both, and are
    evaluated like the first one and, unless that fails, the second one in the
    session it leaves. Where an evaluation fails, each name has the last term
    that the statements before the failing one assigned to it, or else the one it
    had; nothing is assigned when the text cannot be read. -/
theorem evaluation_compositional (environment : Environment) (session : Session)
    (defaultSort : String) :
    (∀ first second statements more,
      Statement.parse first defaultSort environment.literals = .ok statements →
      Statement.parse second defaultSort environment.literals = .ok more →
      Statement.parse (first ++ "\n" ++ second) defaultSort environment.literals =
          .ok (statements ++ more) ∧
        ∀ fuel, session.evaluate environment fuel (first ++ "\n" ++ second) defaultSort =
          andThen (session.evaluate environment fuel first defaultSort)
            (·.evaluate environment fuel second defaultSort)) ∧
    (∀ text statements fuel reason after,
      Statement.parse text defaultSort environment.literals = .ok statements →
      (session.evaluate environment fuel text defaultSort = (.error reason, after) ↔
        ∃ trace failing rest, statements = trace.map Prod.fst ++ failing :: rest ∧
          Performs environment fuel session trace after ∧
          after.evaluateTerm environment fuel failing.term = .error reason)) ∧
    (∀ fuel trace after, Performs environment fuel session trace after → ∀ name,
      after.assigned? name = (termsOf name trace).getLast?.or (session.assigned? name)) ∧
    ∀ text error, Statement.parse text defaultSort environment.literals = .error error →
      ∀ fuel, session.evaluate environment fuel text defaultSort =
        (.error (.failed error), session) := by
  have hne : ∀ text statements,
      Statement.parse text defaultSort environment.literals = .ok statements →
      statements ≠ [] := by
    intro text statements h
    obtain ⟨sentences, hsentences, -, rfl⟩ := Statement.parse_eq_ok_iff.mp h
    simpa using hsentences
  refine ⟨?_, ?_, ?_, ?_⟩
  · intro first second statements more hfirst hsecond
    have hboth := Statement.parse_append hfirst hsecond
    refine ⟨hboth, fun fuel => ?_⟩
    rw [evaluate_of_parse hboth, evaluate_of_parse hfirst,
      evaluateAll_append (hne first statements hfirst) (hne second more hsecond)]
    simp only [evaluate_of_parse hsecond]
  · intro text statements fuel reason after htext
    rw [evaluate_of_parse htext]
    exact evaluateAll_eq_error_iff (hne text statements htext)
  · intro fuel trace after hperforms name
    exact hperforms.assigned? name
  · intro text error htext fuel
    rw [evaluate, htext]

/-- The sum for `x` is worked out, and then the one for `y` fails on a name that
    has no term. So `x` is new, with the number that its sum came to, and `y` is
    still zero. A text that breaks off leaves the session alone. -/
theorem broken_sum_keeps_number :
    let environment : Environment := (Environment.new Settings.standard).register .numbers
    let session : Session := ⟨(∅ : Bindings).insert "y" (.ofCount 0)⟩
    let assigned : Session := ⟨session.bindings.insert "x" (.ofCount 1)⟩
    let one : Statement := .assignment "x" (.plus (.ofCount 1) (.ofCount 0))
    let sum : Statement := .assignment "y" (.plus (.var "x" numberSort) (.var "w" numberSort))
    let unbound : Stop := .failed (.rewrite (.unboundVariable "w" numberSort))
    Statement.parse "x = add(inc(zero()), zero())" numberSort [] = .ok [one] ∧
      Statement.parse "y = add(x, w)" numberSort [] = .ok [sum] ∧
      Statement.parse "x = add(inc(zero()), zero())\ny = add(x, w)" numberSort [] =
        .ok [one, sum] ∧
      session.evaluate environment 2 "x = add(inc(zero()), zero())\ny = add(x, w)" numberSort =
        andThen (session.evaluate environment 2 "x = add(inc(zero()), zero())" numberSort)
          (·.evaluate environment 2 "y = add(x, w)" numberSort) ∧
      session.evaluate environment 2 "x = add(inc(zero()), zero())\ny = add(x, w)" numberSort =
        (.error unbound, assigned) ∧
      assigned.assigned? "y" = some (.ofCount 0) ∧
      session.evaluate environment 2 "y =" numberSort =
        (.error (.failed (.grammar (.endOfInput .identifier))), session) := by
  intro environment session assigned one sum unbound
  have hone : Statement.parse "x = add(inc(zero()), zero())" numberSort environment.literals =
      .ok [one] := by cbv
  have hsum : Statement.parse "y = add(x, w)" numberSort environment.literals = .ok [sum] := by cbv
  have hend : Statement.parse "y =" numberSort environment.literals =
      .error (.grammar (.endOfInput .identifier)) := by cbv
  obtain ⟨happend, hfails, hterms, hunread⟩ :=
    evaluation_compositional environment session numberSort
  obtain ⟨hparse, hevaluate⟩ := happend _ _ _ _ hone hsum
  have hvalue : session.evaluateTerm environment 2 one.term = .ok ⟨numberSort, .ofCount 1⟩ := by cbv
  have hperforms : Performs environment 2 session [(one, ⟨numberSort, .ofCount 1⟩)] assigned :=
    .cons hvalue .nil
  have hunbound : assigned.evaluateTerm environment 2 sum.term = .error unbound := by cbv
  have hwhole := (hfails _ _ 2 unbound assigned hparse).mpr
    ⟨_, sum, [], rfl, hperforms, hunbound⟩
  exact ⟨hone, hsum, hparse, hevaluate 2, hwhole, hterms 2 _ assigned hperforms "y",
    hunread _ _ hend 2⟩

end Session

end Equational
