import Equational.Environment.Basic
import Equational.Proofs.Machine.Registration
import Equational.Proofs.Specification.Library
import Equational.Proofs.Text.ByteOrder
import Mathlib

/-! # The history of an environment

    A host loads, registers and unloads specifications, in any order, and some of
    the texts that it loads cannot be read. What is specified afterwards is what
    the **last** action decided that succeeded on a sort.

    * One action decides about one sort at most, and leaves everything else
      (`lookup?_perform`). By induction on the history, a sort is specified as the
      last action that decided about it left it (`lookup?_after`).
    * The host cannot tell two environments apart that specify the same sorts in the
      same way: `Agrees` is kept by every action, with equal answers
      (`Agrees.performAll`). Loads that decide about different sorts lead to such
      environments in either order.
-/

namespace Equational

namespace Theory

variable (theory other : Theory)

/-- After a sort was taken away, all others are specified as before. -/
theorem lookup?_unregister (removed sort : String) :
    (theory.unregister removed).lookup? sort =
      if removed = sort then none else theory.lookup? sort := by
  unfold lookup? unregister
  rw [Std.TreeMap.getElem?_erase]
  simp

theorem mem_names {sort : String} :
    sort ∈ theory.names ↔ ∃ specification, theory.lookup sort = .ok specification := by
  unfold names
  rw [Std.TreeMap.mem_keys, Std.TreeMap.mem_iff_isSome_getElem?, Option.isSome_iff_exists]
  exact exists_congr fun _ => lookup_eq_ok_iff.symm

theorem contains_iff {sort : String} :
    theory.contains sort ↔ ∃ specification, theory.lookup sort = .ok specification := by
  unfold contains
  rw [Option.isSome_iff_exists]
  exact exists_congr fun _ => lookup_eq_ok_iff.symm

/-- The names of the sorts are in the order of their bytes. -/
theorem pairwise_utf8Bytes_names : (theory.names.map utf8Bytes).Pairwise (· < ·) := by
  refine List.Pairwise.map utf8Bytes ?_ Std.TreeMap.ordered_keys
  intro sort sort' h
  exact utf8Bytes_lt (compare_lt_iff_lt.mp h)

theorem length_names : theory.names.length = theory.size :=
  Std.TreeMap.length_keys

variable {theory other}

/-- Theories that specify the same sorts list the same names. -/
theorem names_eq (h : ∀ sort, theory.lookup? sort = other.lookup? sort) :
    theory.names = other.names :=
  (Std.TreeMap.Equiv.of_forall_constGet?_eq h).keys_eq

theorem size_eq (h : ∀ sort, theory.lookup? sort = other.lookup? sort) :
    theory.size = other.size :=
  (Std.TreeMap.Equiv.of_forall_constGet?_eq h).size_eq

end Theory

namespace Environment

/-! ## Actions -/

/-- What a host does to the specifications of an environment. -/
inductive Action where
  | load (text : String) (literals : List Literal)
  | register (specification : Specification)
  | unload (sort : String)

/-- The specification that an action stores, if it gives one that can be read. -/
def Action.stored? : Action → Option Specification
  | .load text literals => (Specification.parse text literals).toOption
  | .register specification => some specification
  | .unload _ => none

/-- The sort that an action decides about. A text that cannot be read decides
    about none. -/
def Action.sort? : Action → Option String
  | .load text literals => (Specification.parse text literals).toOption.map (·.name)
  | .register specification => some specification.name
  | .unload sort => some sort

/-- What the host is told about an action. -/
inductive Answer where
  | loaded (outcome : Except Error Specification)
  | registered
  | unloaded (found : Bool)

/-- The answer to an action, and the environment after it. -/
def perform (environment : Environment) : Action → Answer × Environment
  | .load text literals =>
    match environment.load text literals with
    | .ok (specification, next) => (.loaded (.ok specification), next)
    | .error error => (.loaded (.error error), environment)
  | .register specification => (.registered, environment.register specification)
  | .unload sort =>
    let (found, next) := environment.unload sort
    (.unloaded found, next)

/-- The answers to actions, one after the other, and the environment after the
    last. -/
def performAll (environment : Environment) : List Action → List Answer × Environment
  | [] => ([], environment)
  | action :: actions =>
    let (answer, next) := environment.perform action
    let (answers, last) := performAll next actions
    (answer :: answers, last)

/-- The environment after actions. -/
def after (environment : Environment) (actions : List Action) : Environment :=
  (environment.performAll actions).2

variable {environment other : Environment} {sort : String} {specification : Specification}

/-! ## One action -/

/-- A text that can be read is loaded. -/
theorem perform_load_of_ok {text : String} {literals : List Literal}
    (h : Specification.parse text literals = .ok specification) :
    environment.perform (.load text literals) =
      (.loaded (.ok specification), environment.register specification) := by
  simp [perform, load, h, bind, Except.bind, pure, Except.pure]

/-- One that cannot be read changes nothing. -/
theorem perform_load_of_error {text : String} {literals : List Literal} {error : Error}
    (h : Specification.parse text literals = .error error) :
    environment.perform (.load text literals) = (.loaded (.error error), environment) := by
  simp [perform, load, h, bind, Except.bind]

/-- An action decides about its sort, if any, and leaves the others as they are. -/
theorem lookup?_perform (environment : Environment) (action : Action) (sort : String) :
    (environment.perform action).2.theory.lookup? sort =
      if action.sort? = some sort then action.stored? else environment.theory.lookup? sort := by
  cases action with
  | load text literals =>
    cases hparse : Specification.parse text literals with
    | error error =>
      rw [perform_load_of_error hparse]
      simp [Action.sort?, hparse, Except.toOption]
    | ok specification =>
      rw [perform_load_of_ok hparse]
      simp [Action.sort?, Action.stored?, hparse, Except.toOption, register,
        Theory.lookup?_register, eq_comm]
  | register specification =>
    simp [perform, Action.sort?, Action.stored?, register, Theory.lookup?_register, eq_comm]
  | unload removed =>
    simp [perform, Action.sort?, Action.stored?, unload, Theory.lookup?_unregister]

/-- What is no specification stays as it is. -/
theorem perform_frame (environment : Environment) (action : Action) :
    (environment.perform action).2.printers = environment.printers ∧
      (environment.perform action).2.literals = environment.literals ∧
      (environment.perform action).2.settings = environment.settings := by
  cases action with
  | load text literals =>
    cases hparse : Specification.parse text literals with
    | error error => simp [perform_load_of_error hparse]
    | ok specification => simp [perform_load_of_ok hparse, register]
  | register specification => simp [perform, register]
  | unload removed => simp [perform, unload]

/-! ## Histories -/

@[simp] theorem after_nil (environment : Environment) : environment.after [] = environment := rfl

@[simp] theorem after_cons (environment : Environment) (action : Action) (actions : List Action) :
    environment.after (action :: actions) = (environment.perform action).2.after actions := rfl

@[simp] theorem answers_cons (environment : Environment) (action : Action)
    (actions : List Action) :
    (environment.performAll (action :: actions)).1 =
      (environment.perform action).1 :: ((environment.perform action).2.performAll actions).1 :=
  rfl

theorem after_append (environment : Environment) (front back : List Action) :
    environment.after (front ++ back) = (environment.after front).after back := by
  induction front generalizing environment with
  | nil => rfl
  | cons action front ih => simp [ih]

theorem after_frame (environment : Environment) (actions : List Action) :
    (environment.after actions).printers = environment.printers ∧
      (environment.after actions).literals = environment.literals ∧
      (environment.after actions).settings = environment.settings := by
  induction actions generalizing environment with
  | nil => simp
  | cons action actions ih =>
    obtain ⟨hprinters, hliterals, hsettings⟩ := ih (environment.perform action).2
    obtain ⟨hprinters', hliterals', hsettings'⟩ := environment.perform_frame action
    exact ⟨hprinters.trans hprinters', hliterals.trans hliterals', hsettings.trans hsettings'⟩

/-- The last action that decided about a sort stored a specification there. -/
def Stored (actions : List Action) (sort : String) (specification : Specification) : Prop :=
  ∃ before last later, actions = before ++ last :: later ∧
    last.sort? = some sort ∧ last.stored? = some specification ∧
    ∀ action ∈ later, action.sort? ≠ some sort

/-- The last action counts if it decides about the sort, and else those before it. -/
theorem stored_append_singleton (actions : List Action) (action : Action) :
    Stored (actions ++ [action]) sort specification ↔
      if action.sort? = some sort then action.stored? = some specification
      else Stored actions sort specification := by
  constructor
  · rintro ⟨before, last, later, heq, hsort, hstored, hlater⟩
    rcases List.eq_nil_or_concat' later with rfl | ⟨later, final, rfl⟩
    · -- the deciding action is the one at the end
      obtain ⟨-, rfl⟩ : actions = before ∧ action = last := by simpa using heq
      rwa [if_pos hsort]
    · have hconcat : actions ++ [action] = (before ++ last :: later) ++ [final] := by
        simpa using heq
      obtain ⟨rfl, hfinal⟩ := List.append_inj' hconcat rfl
      obtain rfl : action = final := List.singleton_inj.mp hfinal
      rw [if_neg (hlater action (by simp))]
      exact ⟨before, last, later, rfl, hsort, hstored, fun other h => hlater other (by simp [h])⟩
  · intro h
    by_cases hsort : action.sort? = some sort
    · rw [if_pos hsort] at h
      exact ⟨actions, action, [], rfl, hsort, h, by simp⟩
    · rw [if_neg hsort] at h
      obtain ⟨before, last, later, rfl, hlast, hstored, hlater⟩ := h
      refine ⟨before, last, later ++ [action], by simp, hlast, hstored, ?_⟩
      intro other hmem
      rcases List.mem_append.mp hmem with hother | hother
      · exact hlater other hother
      · rwa [List.mem_singleton.mp hother]

/-- A sort is specified as the last action about it left it. -/
theorem lookup?_after (hempty : environment.theory = ∅) (actions : List Action) :
    (environment.after actions).theory.lookup? sort = some specification ↔
      Stored actions sort specification := by
  induction actions using List.reverseRecOn with
  | nil => simp [hempty, Stored]
  | append_singleton actions action ih =>
    rw [after_append, after_cons, after_nil, lookup?_perform, stored_append_singleton]
    by_cases hsort : action.sort? = some sort
    · simp only [if_pos hsort]
    · simpa only [if_neg hsort] using ih

/-! ## Observations -/

/-- No observation tells the environments apart. -/
structure Agrees (environment other : Environment) : Prop where
  lookup? : ∀ sort, environment.theory.lookup? sort = other.theory.lookup? sort
  names : environment.theory.names = other.theory.names
  size : environment.theory.size = other.theory.size
  printers : environment.printers = other.printers
  literals : environment.literals = other.literals
  settings : environment.settings = other.settings

/-- An action tells the host the same, and leads to the same observations. -/
theorem Agrees.perform (agrees : environment.Agrees other) (action : Action) :
    (environment.perform action).1 = (other.perform action).1 ∧
      (environment.perform action).2.Agrees (other.perform action).2 := by
  have hlookup : ∀ sort, (environment.perform action).2.theory.lookup? sort =
      (other.perform action).2.theory.lookup? sort := by
    intro sort
    rw [lookup?_perform, lookup?_perform, agrees.lookup?]
  obtain ⟨hprinters, hliterals, hsettings⟩ := environment.perform_frame action
  obtain ⟨hprinters', hliterals', hsettings'⟩ := other.perform_frame action
  refine ⟨?_, hlookup, Theory.names_eq hlookup, Theory.size_eq hlookup, ?_, ?_, ?_⟩
  · cases action with
    | load text literals =>
      cases hparse : Specification.parse text literals with
      | error error => rw [perform_load_of_error hparse, perform_load_of_error hparse]
      | ok specification => rw [perform_load_of_ok hparse, perform_load_of_ok hparse]
    | register specification => rfl
    | unload removed =>
      simp [Environment.perform, unload, Theory.contains, agrees.lookup?]
  · rw [hprinters, hprinters', agrees.printers]
  · rw [hliterals, hliterals', agrees.literals]
  · rw [hsettings, hsettings', agrees.settings]

/-- So do actions, one after the other. -/
theorem Agrees.performAll (agrees : environment.Agrees other) (actions : List Action) :
    (environment.performAll actions).1 = (other.performAll actions).1 ∧
      (environment.after actions).Agrees (other.after actions) := by
  induction actions generalizing environment other with
  | nil => exact ⟨rfl, agrees⟩
  | cons action actions ih =>
    obtain ⟨hanswer, hnext⟩ := agrees.perform action
    obtain ⟨hanswers, hlast⟩ := ih hnext
    refine ⟨?_, hlast⟩
    rw [answers_cons, answers_cons, hanswer, hanswers]

/-- Actions about different sorts can be exchanged. -/
theorem agrees_after_swap (environment : Environment) {first second : Action}
    (hsorts : ∀ sort, first.sort? = some sort → second.sort? ≠ some sort) :
    (environment.after [first, second]).Agrees (environment.after [second, first]) := by
  have hlookup : ∀ sort, (environment.after [first, second]).theory.lookup? sort =
      (environment.after [second, first]).theory.lookup? sort := by
    intro sort
    simp only [after_cons, after_nil, lookup?_perform]
    by_cases hfirst : first.sort? = some sort
    · rw [if_pos hfirst, if_pos hfirst, if_neg (hsorts sort hfirst)]
    · rw [if_neg hfirst, if_neg hfirst]
  obtain ⟨hprinters, hliterals, hsettings⟩ := environment.after_frame [first, second]
  obtain ⟨hprinters', hliterals', hsettings'⟩ := environment.after_frame [second, first]
  exact ⟨hlookup, Theory.names_eq hlookup, Theory.size_eq hlookup, hprinters.trans hprinters'.symm,
    hliterals.trans hliterals'.symm, hsettings.trans hsettings'.symm⟩

/-- The specifications of an environment are those that the last successful action
    about their sort stored, under their own names, after loads, registrations and
    unloads in any order. A load that fails leaves the environment as it is, and
    nothing but specifications is ever touched. Unloading finds exactly what is
    specified; so does the list of names, in the order of their bytes, and the size
    counts them. Two loads of different sorts give the host the same answers in
    either order, then and later. -/
theorem specified_by_last_success (printers : Printers) (literals : List Literal)
    (settings : Settings) (actions : List Action) :
    let environment := (Environment.mk ∅ printers literals settings).after actions
    (∀ sort specification, environment.theory.lookup sort = .ok specification ↔
      Stored actions sort specification) ∧
    (∀ sort specification, environment.theory.lookup sort = .ok specification →
      specification.name = sort) ∧
    (environment.printers = printers ∧ environment.literals = literals ∧
      environment.settings = settings) ∧
    (∀ text extra error, Specification.parse text extra = .error error →
      environment.perform (.load text extra) = (.loaded (.error error), environment)) ∧
    (∀ sort, (environment.unload sort).1 = true ↔
      ∃ specification, environment.theory.lookup sort = .ok specification) ∧
    (∀ sort, sort ∈ environment.theory.names ↔
      ∃ specification, environment.theory.lookup sort = .ok specification) ∧
    (environment.theory.names.map utf8Bytes).Pairwise (· < ·) ∧
    environment.theory.names.length = environment.theory.size ∧
    ∀ text extra specification text' extra' specification',
      Specification.parse text extra = .ok specification →
      Specification.parse text' extra' = .ok specification' →
      specification.name ≠ specification'.name → ∀ later, ∃ answers,
        let one := environment.performAll (.load text extra :: .load text' extra' :: later)
        let two := environment.performAll (.load text' extra' :: .load text extra :: later)
        one.1 = .loaded (.ok specification) :: .loaded (.ok specification') :: answers ∧
        two.1 = .loaded (.ok specification') :: .loaded (.ok specification) :: answers ∧
        one.2.Agrees two.2 := by
  intro environment
  refine ⟨?_, ?_, after_frame _ actions, ?_, ?_, ?_, environment.theory.pairwise_utf8Bytes_names,
    environment.theory.length_names, ?_⟩
  · intro sort specification
    rw [Theory.lookup_eq_ok_iff]
    exact lookup?_after rfl actions
  · intro sort specification h
    exact Theory.lookup?_name (Theory.lookup_eq_ok_iff.mp h)
  · intro text extra error h
    exact perform_load_of_error h
  · intro sort
    exact environment.theory.contains_iff
  · intro sort
    exact environment.theory.mem_names
  · intro text extra specification text' extra' specification' h h' hne later
    have hsorts : ∀ sort, (Action.load text extra).sort? = some sort →
        (Action.load text' extra').sort? ≠ some sort := by
      intro sort hsort hsort'
      simp only [Action.sort?, h, h', Except.toOption, Option.map_some, Option.some.injEq]
        at hsort hsort'
      exact hne (hsort.trans hsort'.symm)
    obtain ⟨hanswers, hlast⟩ := (environment.agrees_after_swap hsorts).performAll later
    refine ⟨((environment.after [.load text extra, .load text' extra']).performAll later).1,
      ?_, ?_, hlast⟩
    · simp only [answers_cons, after_cons, after_nil, perform_load_of_ok h, perform_load_of_ok h']
    · rw [hanswers]
      simp only [answers_cons, after_cons, after_nil, perform_load_of_ok h, perform_load_of_ok h']

/-- Numbers are loaded, then a text that breaks off, and another sort is unloaded.
    The numbers are found, under their name. A text of no more than its first word
    is loaded in vain too, and truth values and queues can be loaded in either
    order. -/
theorem failed_reload_keeps_numbers :
    let actions : List Action :=
      [.load Specification.numbersText [], .load "type: Number" [], .unload "Stack"]
    let environment := (Environment.mk ∅ ∅ [] .standard).after actions
    let truth := Action.load Specification.truthText []
    let queues := Action.load Specification.queuesText []
    environment.theory.lookup numberSort = .ok .numbers ∧
      Specification.numbers.name = numberSort ∧ numberSort ∈ environment.theory.names ∧
      environment.perform (.load "type:" []) =
        (.loaded (.error (.grammar (.endOfInput .sortName))), environment) ∧
      (environment.performAll [truth, queues]).2.theory.names =
        (environment.performAll [queues, truth]).2.theory.names := by
  intro actions environment truth queues
  obtain ⟨hlookup, hname, -, hfailed, -, hnames, -, -, hswap⟩ :=
    specified_by_last_success ∅ [] .standard actions
  have hbroken : (Action.load "type: Number" []).sort? = none := by cbv
  have hstored : Stored actions numberSort .numbers := by
    refine ⟨[], .load Specification.numbersText [], [.load "type: Number" [], .unload "Stack"], rfl,
      ?_, ?_, ?_⟩
    · simp [Action.sort?, Specification.parse_numbersText, Except.toOption, Specification.numbers]
    · simp [Action.stored?, Specification.parse_numbersText, Except.toOption]
    · intro action haction
      rcases List.mem_pair.mp haction with rfl | rfl
      · rw [hbroken]
        simp
      · simp [Action.sort?, numberSort]
  have hnumbers := (hlookup numberSort .numbers).mpr hstored
  obtain ⟨_, -, -, agrees⟩ := hswap Specification.truthText [] .truthValues
    Specification.queuesText [] .queues Specification.parse_truthText Specification.parse_queuesText
    (by decide) []
  exact ⟨hnumbers, hname numberSort .numbers hnumbers,
    (hnames numberSort).mpr ⟨.numbers, hnumbers⟩, hfailed "type:" [] _ (by cbv), agrees.names⟩

end Environment

end Equational
