import Equational.Proofs.Grammar.RoundTrip
import Equational.Proofs.Machine.Start
import Equational.Proofs.Sorting.Refusal
import Equational.Proofs.Term.Rendering
import Equational.Session
import Mathlib

/-! # Calls and sessions

    A call is given its arguments as terms. A session is given a text, and finds
    terms under the names that stand in it. Where a call is not refused, the two
    agree: the text of the call, with a name for each argument, is read as the
    application of the operation to the names, the session puts the arguments in
    their places, and the term that is normalized is the same.

    The session starts under the sort that the operation belongs to, and the call
    under the sort of its result. Both are specified, so this makes no difference
    (`Theory.normalize_eq_of_registered`).
-/

namespace Equational

/-! ## The text of a call -/

/-- The application of an operation to names, as it is written. -/
def callText (sort operation : String) (names : List String) : String :=
  sort ++ ":" ++ operation ++ "(" ++ commaSeparated names ++ ")"

/-- The phrase that this text is. -/
def callPhrase (sort operation : String) (names : List String) : Phrase :=
  .application (.qualified sort operation) (names.map fun name => .name (.plain name))

variable {sort operation : String} {names : List String}

theorem spells_callText (hsort : Lexical sort) (hoperation : Lexical operation)
    (hnames : ∀ name ∈ names, Lexical name) :
    Spells (callText sort operation names).toList (callPhrase sort operation names).lexemes := by
  have hhead : Prints (sort ++ ":" ++ operation) [(Head.qualified sort operation).lexeme] :=
    prints_lexeme (show (Lexeme.qualified sort operation).WellFormed from ⟨hsort, hoperation⟩)
  have harguments : List.Forall₂ Prints names
      ((names.map fun name => Phrase.name (.plain name)).map Phrase.lexemes) := by
    rw [List.map_map, List.forall₂_map_right_iff, List.forall₂_same]
    intro name hname
    exact prints_lexeme (show (Lexeme.identifier name).WellFormed from hnames name hname)
  have hspells := prints_application hhead harguments [] [] rfl .nil
  rwa [List.append_nil, List.append_nil] at hspells

/-- A text of a call is read as one statement, the application to the names, if
    no literal accepts one of them. -/
theorem Statement.parse_callText {literals : List Literal} {defaultSort : String}
    (hsort : Lexical sort) (hoperation : Lexical operation)
    (hnames : ∀ name ∈ names, Lexical name)
    (hdeclined : ∀ name ∈ names, Literal.read? literals name defaultSort = none) :
    Statement.parse (callText sort operation names) defaultSort literals =
      .ok [.expression (.app operation sort (names.map (.var · defaultSort)))] := by
  have hreading : Scope.reading ⟨defaultSort, none, literals⟩ (callPhrase sort operation names) =
      .app operation sort (names.map (.var · defaultSort)) := by
    rw [callPhrase, Scope.reading_application, List.map_map]
    congr 1
    apply List.map_congr_left
    intro name hname
    have hnone := hdeclined name hname
    unfold Literal.read? at hnone
    rw [Function.comp_apply, Scope.reading_name_of_unchecked rfl]
    simp [Head.name, Head.sort, hnone]
  refine Statement.parse_eq_ok_iff.mpr
    ⟨[.expression (callPhrase sort operation names)], by simp, ?_, ?_⟩
  · simpa [Sentence.lexemes] using spells_callText hsort hoperation hnames
  · simp [Sentence.reading, hreading]

/-! ## Names for arguments -/

namespace Session

variable {session : Session} {environment : Environment}

/-- The names stand for the terms of the values, one for each. -/
def Names (session : Session) (names : List String) (values : List Value) : Prop :=
  List.Forall₂ (fun name value => session.assigned? name = some value.term) names values

theorem Names.substitute {values : List Value} (h : session.Names names values)
    (operation sort defaultSort : String) :
    (Term.app operation sort (names.map (.var · defaultSort))).substitute session.bindings =
      .ok (.app operation sort (values.map Value.term)) := by
  have hall : Term.substituteAll session.bindings (names.map (.var · defaultSort)) =
      .ok (values.map Value.term) := by
    induction h with
    | nil => rfl
    | @cons name value names values hname _ ih =>
      have hbound : session.bindings.get? name = some value.term := hname
      rw [List.map_cons, Term.substituteAll, Term.substitute]
      simp only [hbound, ih]
      rfl
  rw [Term.substitute, hall]
  rfl

/-- A text that is one expression has its value, and assigns nothing. -/
theorem evaluate_expression {text defaultSort : String} {term : Term}
    (h : Statement.parse text defaultSort environment.literals = .ok [.expression term])
    (fuel : Nat) :
    session.evaluate environment fuel text defaultSort =
      (session.evaluateTerm environment fuel term, session) := by
  unfold evaluate
  simp only [h, evaluateAll, Statement.term]
  cases session.evaluateTerm environment fuel term with
  | error reason => rfl
  | ok value => rfl

end Session

/-! ## Agreement -/

namespace Environment

variable {environment : Environment} {specification : Specification}

/-- What passes its checks, with a specified result sort, is normalized under
    either of the two specifications. -/
theorem call_eq_evaluateTerm (registered : environment.theory.Registered specification)
    {operation : String} {arguments : List Value} {declared : Operation} {owner : Specification}
    (checked : specification.checkCall operation (arguments.map Value.sort) = .ok declared)
    (howner : environment.theory.lookup? declared.resultSort = some owner) {session : Session}
    {names : List String} (hnames : session.Names names arguments) (defaultSort : String)
    (fuel : Nat) :
    environment.call fuel specification.name operation arguments =
      session.evaluateTerm environment fuel
        (.app operation specification.name (names.map (.var · defaultSort))) := by
  have hlookup := Theory.lookup_eq_ok_iff.mpr registered
  have hdeclared := (Signature.checkCall_eq_ok_iff.mp checked).1
  have hsort : environment.theory.sortOf
      (.app operation specification.name (arguments.map Value.term)) = declared.resultSort :=
    Theory.sortOf_app (Theory.declared?_eq_some_iff.mpr ⟨specification, registered, hdeclared⟩) _
  have hstart := Theory.normalize_eq_of_registered (Theory.registered_of_lookup? howner) registered
    fuel environment.settings.budget
    (.app operation specification.name (arguments.map Value.term))
  rw [call_of_checkCall registered checked (Theory.lookup_eq_ok_iff.mpr howner), hstart]
  unfold Session.evaluateTerm normalize
  simp only [hnames.substitute, Term.sort, hlookup, normalizeUnder_eq, hsort]

/-- A call of an operation is refused for the first reason there is, and an error
    of a call is reported for no other. A call that is not refused fails if the
    sort of its result is not specified. Otherwise it has the outcome that a
    session finds for the text of the call, if names for its arguments stand
    there that no literal accepts: the same value, the same error, or with every
    fuel none. The session is left as it was. -/
theorem call_agrees_with_session (environment : Environment) (specification : Specification)
    (registered : environment.theory.Registered specification) (operation : String)
    (arguments : List Value) :
    (∀ fuel error,
      environment.call fuel specification.name operation arguments =
          .error (.failed (.call error)) ↔
        specification.Refuses operation (arguments.map Value.sort) error) ∧
    ((∀ error, ¬ specification.Refuses operation (arguments.map Value.sort) error) →
      ∃ declared, specification.operation? operation = some declared ∧
        arguments.map Value.sort = declared.argumentSorts ∧
        (environment.theory.lookup? declared.resultSort = none →
          ∀ fuel, environment.call fuel specification.name operation arguments =
            .error (.failed (.undefinedSort declared.resultSort))) ∧
        (environment.theory.lookup? declared.resultSort ≠ none →
          ∀ (session : Session) (names : List String) (defaultSort : String),
            Lexical specification.name → Lexical operation → (∀ name ∈ names, Lexical name) →
            (∀ name ∈ names, Literal.read? environment.literals name defaultSort = none) →
            session.Names names arguments →
            ∀ fuel,
              session.evaluate environment fuel
                  (callText specification.name operation names) defaultSort =
                (environment.call fuel specification.name operation arguments, session))) := by
  refine ⟨fun fuel error => call_eq_callError_iff registered, ?_⟩
  intro accepted
  obtain ⟨declared, hdeclared, hsorts⟩ := Signature.exists_declared_of_not_refuses accepted
  have checked := Signature.checkCall_eq_ok_iff.mpr ⟨hdeclared, hsorts⟩
  refine ⟨declared, hdeclared, hsorts, ?_, ?_⟩
  · intro undefined fuel
    have hlookup := Theory.lookup_eq_ok_iff.mpr registered
    have hresult : environment.theory.lookup declared.resultSort =
        .error (.undefinedSort declared.resultSort) :=
      Theory.lookup_eq_error_iff.mpr ⟨undefined, rfl⟩
    unfold call dispatch
    simp only [hlookup, checked, hresult]
  · intro defined session names defaultSort hsort hoperation hlexical hdeclined hnames fuel
    obtain ⟨owner, howner⟩ := Option.ne_none_iff_exists'.mp defined
    have hparse := Statement.parse_callText hsort hoperation hlexical hdeclined
    rw [Session.evaluate_expression hparse,
      call_eq_evaluateTerm registered checked howner hnames defaultSort]

/-- A sum that is called for with one and zero is the one that a session finds
    for `Number:add(x, y)`, where `x` and `y` are assigned. Without arguments it
    is refused. -/
theorem sum_called_and_evaluated :
    let environment : Environment := (new Settings.standard).register .numbers
    let arguments : List Value := [⟨numberSort, .ofCount 1⟩, ⟨numberSort, .ofCount 0⟩]
    let session : Session := ⟨((∅ : Bindings).insert "x" (.ofCount 1)).insert "y" (.ofCount 0)⟩
    environment.theory.Registered .numbers ∧
      environment.call 0 numberSort "add" [] =
        .error (.failed (.call (.arityMismatch "add" 2 0))) ∧
      callText numberSort "add" ["x", "y"] = "Number:add(x, y)" ∧
      session.Names ["x", "y"] arguments ∧
      session.evaluate environment 2 "Number:add(x, y)" "Stack" =
        (environment.call 2 numberSort "add" arguments, session) ∧
      environment.call 2 numberSort "add" arguments = .ok ⟨numberSort, .ofCount 1⟩ := by
  intro environment arguments session
  have registered : environment.theory.Registered .numbers := Theory.registered_register _ _
  have hempty := (call_agrees_with_session environment .numbers registered "add" []).1
  have hsum := (call_agrees_with_session environment .numbers registered "add" arguments).2
  have hadd : Specification.numbers.operation? "add" =
      some ⟨"add", [numberSort, numberSort], numberSort⟩ := by cbv
  have accepted : ∀ error,
      ¬ Specification.numbers.Refuses "add" (arguments.map Value.sort) error := by
    intro error
    rw [← Signature.checkCall_eq_error_iff]
    have hchecked : Specification.numbers.checkCall "add" (arguments.map Value.sort) =
        .ok ⟨"add", [numberSort, numberSort], numberSort⟩ := by cbv
    simp [hchecked]
  have hnames : session.Names ["x", "y"] arguments := .cons rfl (.cons rfl .nil)
  obtain ⟨declared, hdeclared, -, -, hagree⟩ := hsum accepted
  obtain rfl := Option.some.inj (hadd.symm.trans hdeclared)
  have htext : callText numberSort "add" ["x", "y"] = "Number:add(x, y)" := by cbv
  refine ⟨registered, ?_, htext, hnames, ?_, by cbv⟩
  · exact (hempty 0 _).mpr (.arityMismatch hadd (by decide))
  · rw [← htext]
    refine hagree ?_ session ["x", "y"] "Stack" ?_ ?_ ?_ ?_ hnames 2
    · have hdefined : environment.theory.lookup? numberSort = some .numbers := registered
      simp [hdefined]
    · decide
    · decide
    · decide
    · simp [environment, Literal.read?, register, new]

end Environment

end Equational
