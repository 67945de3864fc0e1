import Equational.Proofs.Rewriting.Contraction
import Equational.Proofs.Rewriting.NormalForm
import Equational.Proofs.Session.Call
import Equational.Proofs.Session.Composition
import Mathlib

/-! # The variables of a session

    Whatever texts a session has evaluated, its variables are **sound**: each has
    a name that can be written, and a ground term that no rule changes.

    * **Terms**: a literal may read a name as a term with variables, but then these
      are replaced too, by ground terms, or the statement fails. What is ground
      stays so when it is normalized (`Theory.isGround_of_normalize`), and comes
      out irreducible.
    * **Statements**: one that fails assigns nothing, and the assignments before it
      are those of statements that did not fail (`evaluateAll_sound`).
    * **Reading back**: a variable's name alone is a text, whose value is the
      variable's term (`evaluate_name`).
-/

namespace Equational

/-! ## Names that texts assign to -/

/-- The names that statements assign to are lexical when they were read. -/
theorem Statement.lexical_of_parse {text defaultSort : String} {literals : List Literal}
    {statements : List Statement} (h : parse text defaultSort literals = .ok statements)
    {name : String} {term : Term} (hmem : .assignment name term ∈ statements) : Lexical name := by
  obtain ⟨sentences, -, hspells, rfl⟩ := parse_eq_ok_iff.mp h
  obtain ⟨sentence, hsentence, hreading⟩ := List.mem_map.mp hmem
  cases sentence with
  | expression phrase => cases hreading
  | assignment other phrase =>
    cases hreading
    exact hspells.wellFormed (.identifier name)
      (List.mem_flatMap.mpr ⟨_, hsentence, by simp [Sentence.lexemes]⟩)

/-- A lexical name is read as a variable, if no literal accepts it. -/
theorem Statement.parse_name {name defaultSort : String} {literals : List Literal}
    (hname : Lexical name) (hdeclined : Literal.read? literals name defaultSort = none) :
    parse name defaultSort literals = .ok [.expression (.var name defaultSort)] := by
  refine parse_eq_ok_iff.mpr ⟨[.expression (.name (.plain name))], by simp, ?_, ?_⟩
  · have hlexeme : (Lexeme.identifier name).WellFormed := hname
    have hspells := prints_lexeme hlexeme [] [] rfl .nil
    simpa [Sentence.lexemes, Phrase.lexemes, Head.lexeme, Lexeme.text] using hspells
  · unfold Literal.read? at hdeclined
    rw [List.map_singleton, Sentence.reading, Scope.reading_name_of_unchecked rfl]
    simp [Head.name, Head.sort, hdeclined]

namespace Session

variable {environment : Environment} {session : Session} {fuel : Nat}

/-! ## Sound sessions -/

/-- The name can be written, and the term is ground and cannot be rewritten. -/
structure Holds (environment : Environment) (name : String) (term : Term) : Prop where
  lexical : Lexical name
  ground : term.isGround
  irreducible : environment.theory.Irreducible term

/-- So it is for every variable. -/
def Sound (environment : Environment) (session : Session) : Prop :=
  ∀ name term, session.assigned? name = some term → Holds environment name term

theorem sound_new : new.Sound environment := by
  intro name term h
  simp [assigned?, new] at h

/-- Values are ground in a sound session. -/
theorem ground_of_evaluateTerm (sound : session.Sound environment) {term : Term} {value : Value}
    (h : session.evaluateTerm environment fuel term = .ok value) : value.term.isGround := by
  unfold evaluateTerm at h
  cases hterm : term.substitute session.bindings with
  | error error => simp [hterm] at h
  | ok instantiated =>
    simp only [hterm] at h
    obtain ⟨result, hrun, rfl⟩ := map_eq_ok_iff.mp h
    -- every variable of the term was replaced by a ground term
    have agrees := session.bindings.agrees_assignment
    obtain ⟨hbound, rfl⟩ := (Term.substitute_eq_ok_iff agrees).mp hterm
    have hground : (term.instantiate session.bindings.assignment).isGround := by
      apply Term.isGround_instantiate
      intro name hname
      obtain ⟨bound, hget⟩ := Option.isSome_iff_exists.mp (hbound name hname)
      rw [agrees name bound hget]
      exact (sound name bound hget).ground
    obtain ⟨owner, registered, hnormal⟩ := Environment.exists_owner_of_normalize hrun
    exact Theory.isGround_of_normalize registered hground hnormal

/-- A value that a statement keeps is kept soundly. -/
theorem Sound.assign (sound : session.Sound environment) {statement : Statement} {value : Value}
    (h : session.evaluateTerm environment fuel statement.term = .ok value)
    (hname : ∀ name term, statement = .assignment name term → Lexical name) :
    (session.assign value statement).Sound environment := by
  cases statement with
  | expression term => exact sound
  | assignment name term =>
    intro other bound hget
    have hassigned : (session.bindings.insert name value.term).get? other = some bound := hget
    rw [Bindings.get?_insert] at hassigned
    by_cases hother : other = name
    · rw [if_pos hother, Option.some.injEq] at hassigned
      rw [hother, ← hassigned]
      exact ⟨hname name term rfl, ground_of_evaluateTerm sound h,
        Environment.irreducible_of_evaluateTerm h⟩
    · rw [if_neg hother] at hassigned
      exact sound other bound hassigned

/-- Statements keep a session sound, and give a ground value, if any. -/
theorem evaluateAll_sound (sound : session.Sound environment) {statements : List Statement}
    (hnames : ∀ name term, .assignment name term ∈ statements → Lexical name) :
    (session.evaluateAll environment fuel statements).2.Sound environment ∧
      ∀ value, (session.evaluateAll environment fuel statements).1 = .ok value →
        value.term.isGround := by
  induction statements generalizing session with
  | nil => exact ⟨sound, by simp [evaluateAll]⟩
  | cons statement rest ih =>
    cases hvalue : session.evaluateTerm environment fuel statement.term with
    | error reason =>
      rw [evaluateAll_of_error hvalue]
      exact ⟨sound, by simp⟩
    | ok value =>
      have hassigned := sound.assign hvalue fun name term heq => hnames name term (by simp [heq])
      by_cases hrest : rest = []
      · subst hrest
        rw [evaluateAll_singleton hvalue]
        refine ⟨hassigned, ?_⟩
        intro last hlast
        rw [← Except.ok.inj hlast]
        exact ground_of_evaluateTerm sound hvalue
      · rw [evaluateAll_cons hvalue hrest]
        exact ih hassigned fun name term hmem => hnames name term (by simp [hmem])

/-- So do texts. One that cannot be read changes nothing. -/
theorem evaluate_sound (sound : session.Sound environment) (fuel : Nat)
    (text defaultSort : String) :
    (session.evaluate environment fuel text defaultSort).2.Sound environment ∧
      ∀ value, (session.evaluate environment fuel text defaultSort).1 = .ok value →
        value.term.isGround := by
  cases hparse : Statement.parse text defaultSort environment.literals with
  | error error =>
    rw [evaluate, hparse]
    exact ⟨sound, by simp⟩
  | ok statements =>
    rw [evaluate_of_parse hparse]
    exact evaluateAll_sound sound fun name term hmem => Statement.lexical_of_parse hparse hmem

/-- The name of a variable, as a text, has the variable's term as its value. -/
theorem evaluate_name {name : String} {term : Term} (holds : Holds environment name term)
    (h : session.assigned? name = some term) {defaultSort : String}
    (hdeclined : Literal.read? environment.literals name defaultSort = none) (fuel : Nat) :
    session.evaluate environment fuel name defaultSort =
      (.ok ⟨environment.theory.sortOf term, term⟩, session) := by
  have hget : session.bindings.get? name = some term := h
  have hnormal := environment.normalize_of_irreducible holds.irreducible fuel
  rw [evaluate_expression (Statement.parse_name holds.lexical hdeclined)]
  unfold evaluateTerm
  simp only [Term.substitute, hget, hnormal]
  rfl

/-! ## Commands -/

/-- What a host has a session do. -/
inductive Command where
  | evaluate (fuel : Nat) (text defaultSort : String)
  | clear

/-- The session after a command, whether that failed or not. -/
def perform (environment : Environment) (session : Session) : Command → Session
  | .evaluate fuel text defaultSort => (session.evaluate environment fuel text defaultSort).2
  | .clear => session.clear

/-- The session after commands, one after the other. -/
def performAll (environment : Environment) (session : Session) (commands : List Command) :
    Session :=
  commands.foldl (perform environment) session

theorem performAll_sound (sound : session.Sound environment) (commands : List Command) :
    (session.performAll environment commands).Sound environment := by
  induction commands generalizing session with
  | nil => exact sound
  | cons command commands ih =>
    apply ih
    cases command with
    | evaluate fuel text defaultSort => exact (evaluate_sound sound fuel text defaultSort).1
    | clear => exact sound_new

/-- Whatever texts a session has evaluated, under whatever literals and limit, and
    whether they failed or not: each variable is a ground term and a normal form,
    which comes back without a firing even from an exhausted budget. Values of
    texts are ground. A variable that no literal claims is read back from its name
    under any default sort, as a value of its term's sort, and the session is left
    as it was. -/
theorem variables_are_ground_normal_forms (environment : Environment) (commands : List Command) :
    let session := new.performAll environment commands
    (∀ name term, session.assigned? name = some term →
      term.isGround ∧ (∀ fuel, environment.normalize fuel term = .ok term) ∧
      ∃ specification, environment.theory.lookup? term.sort = some specification ∧
        ∀ fuel budget, environment.theory.normalize fuel budget specification term =
          (.ok term, budget)) ∧
    (∀ fuel text defaultSort value,
      (session.evaluate environment fuel text defaultSort).1 = .ok value →
        value.term.isGround) ∧
    ∀ name term, session.assigned? name = some term → ∀ defaultSort,
      Literal.read? environment.literals name defaultSort = none → ∀ fuel,
        session.evaluate environment fuel name defaultSort =
          (.ok ⟨environment.theory.sortOf term, term⟩, session) := by
  intro session
  have sound : session.Sound environment := performAll_sound sound_new commands
  refine ⟨?_, ?_, ?_⟩
  · intro name term h
    obtain ⟨_, hground, irreducible⟩ := sound name term h
    obtain ⟨owner, hlookup, registered⟩ := irreducible.stable.lookup
    refine ⟨hground, Environment.normalize_of_irreducible irreducible, owner, ?_, ?_⟩
    · exact Theory.lookup_eq_ok_iff.mp hlookup
    · exact Theory.normalize_of_irreducible irreducible registered
  · intro fuel text defaultSort value h
    exact (evaluate_sound sound fuel text defaultSort).2 value h
  · intro name term h defaultSort hdeclined fuel
    exact evaluate_name (sound name term h) h hdeclined fuel

/-- A variable is forgotten, and a text fails behind its first assignment. The sum
    that was assigned there is kept as its value, and is read back under the
    default sort of stacks. -/
theorem sum_kept_and_read_back :
    let environment : Environment := (Environment.new Settings.standard).register .numbers
    let commands : List Command :=
      [.evaluate 0 "z = zero()" numberSort, .clear,
        .evaluate 2 "x = add(inc(zero()), zero())\ny = z" numberSort]
    let session := new.performAll environment commands
    session.assigned? "z" = none ∧ session.assigned? "x" = some (.ofCount 1) ∧
      (Term.ofCount 1).isGround ∧
      environment.theory.normalize 0 ⟨some 0, 0⟩ .numbers (.ofCount 1) =
        (.ok (.ofCount 1), ⟨some 0, 0⟩) ∧
      session.evaluate environment 0 "x" "Stack" = (.ok ⟨numberSort, .ofCount 1⟩, session) := by
  intro environment commands session
  obtain ⟨hkept, -, hread⟩ := variables_are_ground_normal_forms environment commands
  have hz : (new.performAll environment commands).assigned? "z" = none := by cbv
  have hx : (new.performAll environment commands).assigned? "x" = some (.ofCount 1) := by cbv
  obtain ⟨hground, -, owner, hlookup, hfixed⟩ := hkept "x" _ hx
  have hnumbers : environment.theory.lookup? numberSort = some .numbers := by cbv
  obtain rfl : owner = .numbers := Option.some.inj (hlookup.symm.trans hnumbers)
  exact ⟨hz, hx, hground, hfixed 0 ⟨some 0, 0⟩, hread "x" _ hx "Stack" (by cbv) 0⟩

end Session

end Equational
