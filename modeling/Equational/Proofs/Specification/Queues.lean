import Equational.Proofs.Rewriting.Contraction
import Equational.Proofs.Rewriting.Descent
import Equational.Proofs.Sorting.Call
import Equational.Proofs.Specification.Library
import Mathlib

/-! # Queues are first in, first out

    A host that calls the operations of queues works on a list: `enqueue` puts an
    element behind it, `dequeue` takes the first one off, `front` gives that one,
    and `is_empty` tells whether there is any.

    * Every term that a call may come by **denotes** a list, an element or a truth
      value (`Queue.Denotes`), and each firing in it leaves what it denotes
      (`Queue.Denotes.fires`). Its weight counts the firings still to be made: a
      `dequeue` or `front` goes down the queue that it is applied to, one element
      at a time.
    * An irreducible term is the one that writes out what it denotes
      (`Queue.Denotes.term_eq`).
    * So each call ends with the value that the list has
      (`Environment.call_of_denotes`), and any number of them do.

    Elements may be any ground normal forms, such as `front(empty())`, which no
    rule explains. The rules for queues look at how a queue is built only.
-/

namespace Equational

namespace Queue

/-- The queue of elements, the first of them first. -/
def ofList (elements : List Term) : Term :=
  elements.foldl enqueue empty

theorem ofList_concat (elements : List Term) (last : Term) :
    ofList (elements ++ [last]) = enqueue (ofList elements) last := by
  simp [ofList]

/-- A queue with an element is of one element, or of two and more. -/
theorem ofList_cons_cases (first : Term) (rest : List Term) :
    (∃ x, ofList (first :: rest) = enqueue empty x) ∨
      ∃ q y x, ofList (first :: rest) = enqueue (enqueue q y) x := by
  induction rest using List.reverseRecOn with
  | nil => exact .inl ⟨first, rfl⟩
  | append_singleton rest last ih =>
    have hlast : ofList (first :: (rest ++ [last])) = enqueue (ofList (first :: rest)) last :=
      ofList_concat (first :: rest) last
    rw [hlast]
    rcases ih with ⟨x, hx⟩ | ⟨q, y, x, hx⟩
    · exact .inr ⟨_, _, _, by rw [hx]⟩
    · exact .inr ⟨_, _, _, by rw [hx]⟩

/-! ## Rules for queues -/

section rules

variable {theory : Theory}

/-- What the variables of the rules stand for. -/
def assignment (q y x : Term) (name : String) : Term :=
  if name = "Q" then q else if name = "Y" then y else x

/-- What the rules for queues make of a root, in their order. -/
inductive Reduces : Term → Term → Prop where
  | dequeueOne (x : Term) : Reduces (dequeue (enqueue empty x)) empty
  | dequeueMore (q y x : Term) :
      Reduces (dequeue (enqueue (enqueue q y) x)) (enqueue (dequeue (enqueue q y)) x)
  | frontOne (x : Term) : Reduces (front (enqueue empty x)) x
  | frontMore (q y x : Term) : Reduces (front (enqueue (enqueue q y) x)) (front (enqueue q y))
  | isEmptyEmpty : Reduces (isEmpty empty) (.ofTruth true)
  | isEmptyMore (q x : Term) : Reduces (isEmpty (enqueue q x)) (.ofTruth false)

theorem reduces_of_fires (registered : theory.Registered .queues) {t u : Term}
    (hsort : t.sort = queueSort) (ground : t.isGround) (h : theory.Fires t u) : Reduces t u := by
  obtain ⟨rule, hrule, assignment, rfl, rfl⟩ := h.exists_rule registered hsort ground
  simp only [Specification.queues, List.mem_cons, List.not_mem_nil, or_false] at hrule
  rcases hrule with rfl | rfl | rfl | rfl | rfl | rfl
  · exact .dequeueOne (assignment "X")
  · exact .dequeueMore (assignment "Q") (assignment "Y") (assignment "X")
  · exact .frontOne (assignment "X")
  · exact .frontMore (assignment "Q") (assignment "Y") (assignment "X")
  · exact .isEmptyEmpty
  · exact .isEmptyMore (assignment "Q") (assignment "X")

/-- What builds a queue is left as it is. -/
theorem not_fires_of_builds (registered : theory.Registered .queues) {t u : Term}
    (hsort : t.sort = queueSort) (hname : t.name = "empty" ∨ t.name = "enqueue")
    (ground : t.isGround) : ¬ theory.Fires t u := by
  intro h
  cases reduces_of_fires registered hsort ground h
  all_goals simp [dequeue, front, isEmpty, Term.name] at hname

/-- No rule changes a truth value. -/
theorem not_fires_ofTruth (registered : theory.Registered .truthValues) (value : Bool) {u : Term} :
    ¬ theory.Fires (.ofTruth value) u := by
  intro h
  obtain ⟨rule, hrule, assignment, hpattern, -⟩ := h.exists_rule registered rfl rfl
  simp only [Specification.truthValues, List.mem_cons, List.not_mem_nil, or_false] at hrule
  rcases hrule with rfl | rfl | rfl | rfl | rfl
  all_goals cases value <;> simp [Term.instantiate, Term.ofTruth, Term.constant] at hpattern

/-- A queue with elements has a first one, and can be left without it. -/
theorem not_stable_cons (registered : theory.Registered .queues) (first : Term)
    (rest : List Term) :
    ¬ theory.Stable (dequeue (ofList (first :: rest))) ∧
      ¬ theory.Stable (front (ofList (first :: rest))) := by
  rcases ofList_cons_cases first rest with ⟨x, hx⟩ | ⟨q, y, x, hx⟩
  · rw [hx]
    constructor
    · intro h
      exact h.pattern_ne registered rfl (List.mem_of_getElem? (i := 0) rfl) (assignment x x x) rfl
    · intro h
      exact h.pattern_ne registered rfl (List.mem_of_getElem? (i := 2) rfl) (assignment x x x) rfl
  · rw [hx]
    constructor
    · intro h
      exact h.pattern_ne registered rfl (List.mem_of_getElem? (i := 1) rfl) (assignment q y x) rfl
    · intro h
      exact h.pattern_ne registered rfl (List.mem_of_getElem? (i := 3) rfl) (assignment q y x) rfl

/-- Every queue is empty or not. -/
theorem not_stable_isEmpty (registered : theory.Registered .queues) (elements : List Term) :
    ¬ theory.Stable (isEmpty (ofList elements)) := by
  intro h
  rcases List.eq_nil_or_concat' elements with rfl | ⟨before, last, rfl⟩
  · exact h.pattern_ne registered rfl (List.mem_of_getElem? (i := 4) rfl)
      (assignment empty empty empty) rfl
  · rw [ofList_concat] at h
    exact h.pattern_ne registered rfl (List.mem_of_getElem? (i := 5) rfl)
      (assignment (ofList before) last last) rfl

end rules

/-! ## What terms denote -/

/-- A list of elements, an element or a truth value. -/
inductive Meaning where
  | queue (elements : List Term)
  | element (term : Term)
  | truth (value : Bool)

/-- The term that writes a meaning out. -/
def Meaning.term : Meaning → Term
  | queue elements => ofList elements
  | element term => term
  | truth value => .ofTruth value

/-- What may be an element: a term that has no variables and is not rewritten. -/
structure Element (theory : Theory) (term : Term) : Prop where
  ground : term.isGround
  irreducible : theory.Irreducible term

/-- What a term denotes, and the firings that are still to be made in it. To reach
    the first element of a queue takes one firing for each element. -/
inductive Denotes (theory : Theory) : Nat → Term → Meaning → Prop where
  | empty : Denotes theory 0 empty (.queue [])
  | enqueue {n : Nat} {q x : Term} {elements : List Term} :
      Denotes theory n q (.queue elements) → Element theory x →
      Denotes theory n (enqueue q x) (.queue (elements ++ [x]))
  | dequeue {n : Nat} {q first : Term} {rest : List Term} :
      Denotes theory n q (.queue (first :: rest)) →
      Denotes theory (n + rest.length + 1) (dequeue q) (.queue rest)
  | front {n : Nat} {q first : Term} {rest : List Term} :
      Denotes theory n q (.queue (first :: rest)) →
      Denotes theory (n + rest.length + 1) (front q) (.element first)
  | element {x : Term} : Element theory x → Denotes theory 0 x (.element x)
  | isEmpty {n : Nat} {q : Term} {elements : List Term} :
      Denotes theory n q (.queue elements) →
      Denotes theory (n + 1) (isEmpty q) (.truth elements.isEmpty)
  | truth (value : Bool) : Denotes theory 0 (.ofTruth value) (.truth value)

namespace Denotes

variable {theory : Theory} {n : Nat} {t : Term} {meaning : Meaning}

theorem isGround (h : Denotes theory n t meaning) : t.isGround := by
  induction h with
  | empty => rfl
  | enqueue _ hx ih =>
    simp [Queue.enqueue, Term.isGround, Term.allGround, ih, hx.ground]
  | dequeue _ ih => simpa [Queue.dequeue, Term.isGround, Term.allGround] using ih
  | front _ ih => simpa [Queue.front, Term.isGround, Term.allGround] using ih
  | element hx => exact hx.ground
  | isEmpty _ ih => simpa [Queue.isEmpty, Term.isGround, Term.allGround] using ih
  | truth value => rfl

/-- What was put last into a queue is its last element. -/
theorem of_enqueue {q x : Term} {elements : List Term}
    (h : Denotes theory n (Queue.enqueue q x) (.queue elements)) :
    ∃ before, elements = before ++ [x] ∧ Denotes theory n q (.queue before) ∧
      Element theory x := by
  generalize ht : Queue.enqueue q x = t at h
  cases h with
  | empty => simp [Queue.enqueue, Queue.empty, Term.constant] at ht
  | @enqueue n q' x' before hq hx =>
    obtain ⟨rfl, rfl⟩ : q = q' ∧ x = x' := by simpa [Queue.enqueue] using ht
    exact ⟨before, rfl, hq, hx⟩
  | dequeue hq => simp [Queue.enqueue, Queue.dequeue] at ht

theorem of_empty {elements : List Term} (h : Denotes theory n Queue.empty (.queue elements)) :
    elements = [] := by
  generalize ht : Queue.empty = t at h
  cases h with
  | empty => rfl
  | enqueue hq hx => simp [Queue.empty, Queue.enqueue, Term.constant] at ht
  | dequeue hq => simp [Queue.empty, Queue.dequeue, Term.constant] at ht

/-- A queue of one element denotes that. -/
theorem of_enqueue_empty {first x : Term} {rest : List Term}
    (h : Denotes theory n (Queue.enqueue Queue.empty x) (.queue (first :: rest))) :
    x = first ∧ rest = [] ∧ Element theory x := by
  obtain ⟨before, heq, hbefore, hx⟩ := h.of_enqueue
  rw [hbefore.of_empty] at heq
  obtain ⟨rfl, rfl⟩ : first = x ∧ rest = [] := by simpa using heq
  exact ⟨rfl, rfl, hx⟩

/-- A queue of more elements has the first of those before the last. -/
theorem of_enqueue_enqueue {q y x first : Term} {rest : List Term}
    (h : Denotes theory n (Queue.enqueue (Queue.enqueue q y) x) (.queue (first :: rest))) :
    ∃ before, rest = before ++ [x] ∧
      Denotes theory n (Queue.enqueue q y) (.queue (first :: before)) ∧ Element theory x := by
  obtain ⟨most, heq, hmost, hx⟩ := h.of_enqueue
  obtain ⟨before, rfl, _, _⟩ := hmost.of_enqueue
  cases before with
  | nil =>
    obtain ⟨rfl, rfl⟩ : first = y ∧ rest = [x] := by simpa using heq
    exact ⟨[], rfl, hmost, hx⟩
  | cons first' before =>
    obtain ⟨rfl, rfl⟩ : first = first' ∧ rest = before ++ [y] ++ [x] := by simpa using heq
    exact ⟨before ++ [y], rfl, hmost, hx⟩

/-! ## Firings -/

/-- The root of a `dequeue` goes down the queue, or is at its end. -/
theorem fires_dequeue (registered : theory.Registered .queues) {q first u : Term}
    {rest : List Term} (h : Denotes theory n q (.queue (first :: rest)))
    (hfires : theory.Fires (Queue.dequeue q) u) :
    ∃ m < n + rest.length + 1, Denotes theory m u (.queue rest) := by
  have hreduces := reduces_of_fires registered rfl h.dequeue.isGround hfires
  generalize ht : Queue.dequeue q = t at hreduces
  cases hreduces with
  | dequeueOne x =>
    obtain rfl : q = Queue.enqueue Queue.empty x := by simpa [Queue.dequeue] using ht
    obtain ⟨-, rfl, -⟩ := h.of_enqueue_empty
    exact ⟨0, by omega, .empty⟩
  | dequeueMore p y x =>
    obtain rfl : q = Queue.enqueue (Queue.enqueue p y) x := by simpa [Queue.dequeue] using ht
    obtain ⟨before, rfl, hbefore, hx⟩ := h.of_enqueue_enqueue
    refine ⟨n + before.length + 1, ?_, hbefore.dequeue.enqueue hx⟩
    simp only [List.length_append, List.length_singleton]
    omega
  | frontOne | frontMore => simp [Queue.dequeue, Queue.front] at ht
  | isEmptyEmpty | isEmptyMore => simp [Queue.dequeue, Queue.isEmpty] at ht

/-- So does that of a `front`. -/
theorem fires_front (registered : theory.Registered .queues) {q first u : Term}
    {rest : List Term} (h : Denotes theory n q (.queue (first :: rest)))
    (hfires : theory.Fires (Queue.front q) u) :
    ∃ m < n + rest.length + 1, Denotes theory m u (.element first) := by
  have hreduces := reduces_of_fires registered rfl h.front.isGround hfires
  generalize ht : Queue.front q = t at hreduces
  cases hreduces with
  | frontOne =>
    obtain rfl : q = Queue.enqueue Queue.empty u := by simpa [Queue.front] using ht
    obtain ⟨rfl, -, hx⟩ := h.of_enqueue_empty
    exact ⟨0, by omega, .element hx⟩
  | frontMore p y x =>
    obtain rfl : q = Queue.enqueue (Queue.enqueue p y) x := by simpa [Queue.front] using ht
    obtain ⟨before, rfl, hbefore, hx⟩ := h.of_enqueue_enqueue
    refine ⟨n + before.length + 1, ?_, hbefore.front⟩
    simp only [List.length_append, List.length_singleton]
    omega
  | dequeueOne | dequeueMore => simp [Queue.front, Queue.dequeue] at ht
  | isEmptyEmpty | isEmptyMore => simp [Queue.front, Queue.isEmpty] at ht

/-- An `is_empty` looks at what the queue was built by last. -/
theorem fires_isEmpty (registered : theory.Registered .queues) {q u : Term}
    {elements : List Term} (h : Denotes theory n q (.queue elements))
    (hfires : theory.Fires (Queue.isEmpty q) u) :
    ∃ m < n + 1, Denotes theory m u (.truth elements.isEmpty) := by
  have hreduces := reduces_of_fires registered rfl h.isEmpty.isGround hfires
  generalize ht : Queue.isEmpty q = t at hreduces
  cases hreduces with
  | isEmptyEmpty =>
    obtain rfl : q = Queue.empty := by simpa [Queue.isEmpty] using ht
    rw [h.of_empty]
    exact ⟨0, by omega, .truth true⟩
  | isEmptyMore p x =>
    obtain rfl : q = Queue.enqueue p x := by simpa [Queue.isEmpty] using ht
    obtain ⟨before, rfl, -, -⟩ := h.of_enqueue
    rw [List.isEmpty_eq_false_iff.mpr (by simp)]
    exact ⟨0, by omega, .truth false⟩
  | dequeueOne | dequeueMore => simp [Queue.isEmpty, Queue.dequeue] at ht
  | frontOne | frontMore => simp [Queue.isEmpty, Queue.front] at ht

/-- Every firing leaves what a term denotes, and is one of those to be made. -/
theorem fires (queues : theory.Registered .queues) (truth : theory.Registered .truthValues)
    (h : Denotes theory n t meaning) {u : Term} (hstep : Term.InContext theory.Fires t u) :
    ∃ m < n, Denotes theory m u meaning := by
  induction h generalizing u with
  | empty => exact absurd hstep.constant_root (not_fires_of_builds queues rfl (.inl rfl) rfl)
  | @enqueue n q x elements hq hx ih =>
    rcases hstep.binary_cases with hroot | ⟨p, hinner, rfl⟩ | ⟨y, hinner, rfl⟩
    · exact absurd hroot (not_fires_of_builds queues rfl (.inr rfl) (hq.enqueue hx).isGround)
    · obtain ⟨m, hm, hp⟩ := ih hinner
      exact ⟨m, hm, hp.enqueue hx⟩
    · exact absurd hinner hx.irreducible.not_inContext
  | @dequeue n q first rest hq ih =>
    rcases hstep.unary_cases with hroot | ⟨p, hinner, rfl⟩
    · exact hq.fires_dequeue queues hroot
    · obtain ⟨m, hm, hp⟩ := ih hinner
      exact ⟨m + rest.length + 1, by omega, hp.dequeue⟩
  | @front n q first rest hq ih =>
    rcases hstep.unary_cases with hroot | ⟨p, hinner, rfl⟩
    · exact hq.fires_front queues hroot
    · obtain ⟨m, hm, hp⟩ := ih hinner
      exact ⟨m + rest.length + 1, by omega, hp.front⟩
  | element hx => exact absurd hstep hx.irreducible.not_inContext
  | @isEmpty n q elements hq ih =>
    rcases hstep.unary_cases with hroot | ⟨p, hinner, rfl⟩
    · exact hq.fires_isEmpty queues hroot
    · obtain ⟨m, hm, hp⟩ := ih hinner
      exact ⟨m + 1, by omega, hp.isEmpty⟩
  | truth value => exact absurd hstep.constant_root (not_fires_ofTruth truth value)

/-- No place of a term that denotes anything stops a run by an error. -/
theorem clear (queues : theory.Registered .queues) (truth : theory.Registered .truthValues)
    (h : Denotes theory n t meaning) : ∀ v, v.Subterm t → theory.Clear v := by
  have hqueues : ∀ {t : Term}, t.sort = queueSort → theory.Clear t := fun hsort =>
    Theory.clear_of_covered queues (by decide) hsort
  induction h with
  | empty => exact Term.forall_subterm_app.mpr ⟨hqueues rfl, by simp⟩
  | @enqueue n q x elements hq hx ih =>
    have helement : ∀ v, v.Subterm x → theory.Clear v := fun v hv => (hx.irreducible v hv).clear
    exact Term.forall_subterm_app.mpr ⟨hqueues rfl, by simpa using ⟨ih, helement⟩⟩
  | @dequeue n q first rest hq ih =>
    exact Term.forall_subterm_app.mpr ⟨hqueues rfl, by simpa using ih⟩
  | @front n q first rest hq ih =>
    exact Term.forall_subterm_app.mpr ⟨hqueues rfl, by simpa using ih⟩
  | element hx => exact fun v hv => (hx.irreducible v hv).clear
  | @isEmpty n q elements hq ih =>
    exact Term.forall_subterm_app.mpr ⟨hqueues rfl, by simpa using ih⟩
  | truth value =>
    have hclear := Theory.clear_of_covered truth (by decide) (t := .ofTruth value) rfl
    exact Term.forall_subterm_app.mpr ⟨hclear, by simp⟩

theorem descends (queues : theory.Registered .queues) (truth : theory.Registered .truthValues)
    (meaning : Meaning) : theory.Descends (Denotes theory · · meaning) :=
  ⟨fun h hstep => h.fires queues truth hstep, fun h => h.clear queues truth⟩

/-- An irreducible term writes out what it denotes. -/
theorem term_eq (queues : theory.Registered .queues) (h : Denotes theory n t meaning)
    (irreducible : theory.Irreducible t) : t = meaning.term := by
  induction h with
  | empty => rfl
  | @enqueue n q x elements _ _ ih =>
    have hq := ih ((Theory.irreducible_app.mp irreducible).2 q (by simp))
    rw [hq]
    exact (ofList_concat elements x).symm
  | @dequeue n q first rest _ ih =>
    have hq : q = ofList (first :: rest) :=
      ih ((Theory.irreducible_app.mp irreducible).2 q (by simp))
    rw [hq] at irreducible
    exact absurd irreducible.stable (not_stable_cons queues first rest).1
  | @front n q first rest _ ih =>
    have hq : q = ofList (first :: rest) :=
      ih ((Theory.irreducible_app.mp irreducible).2 q (by simp))
    rw [hq] at irreducible
    exact absurd irreducible.stable (not_stable_cons queues first rest).2
  | element _ => rfl
  | @isEmpty n q elements _ ih =>
    have hq : q = ofList elements := ih ((Theory.irreducible_app.mp irreducible).2 q (by simp))
    rw [hq] at irreducible
    exact absurd irreducible.stable (not_stable_isEmpty queues elements)
  | truth value => rfl

end Denotes

end Queue

/-! ## Calls -/

namespace Environment

variable {environment : Environment} {fuel : Nat}

/-- A call that passes its checks gives what its application denotes, written out,
    if it has a firing for each that is to be made. -/
theorem call_of_denotes (unlimited : environment.settings.maxRewriteSteps = none)
    (queues : environment.theory.Registered .queues)
    (truth : environment.theory.Registered .truthValues) (operation : String)
    (arguments : List Value) {declared : Operation} {owner : Specification}
    (checked : Specification.queues.checkCall operation (arguments.map Value.sort) = .ok declared)
    (howner : environment.theory.lookup? declared.resultSort = some owner) {n : Nat}
    {meaning : Queue.Meaning}
    (h : Queue.Denotes environment.theory n
      (.app operation queueSort (arguments.map Value.term)) meaning) (hfuel : n ≤ fuel) :
    environment.call fuel queueSort operation arguments =
      .ok ⟨declared.resultSort, meaning.term⟩ := by
  have hlimit : environment.settings.budget.limit = none := unlimited
  obtain ⟨result, m, hrun, hirreducible, hresult⟩ :=
    (Queue.Denotes.descends queues truth meaning).normalize (Theory.registered_of_lookup? howner) h
      hfuel hlimit
  have hcall : environment.call fuel queueSort operation arguments =
      ((environment.theory.normalize fuel environment.settings.budget owner
        (.app operation queueSort (arguments.map Value.term))).1).map
          (⟨declared.resultSort, ·⟩) :=
    call_of_checkCall queues checked (Theory.lookup_eq_ok_iff.mpr howner) fuel
  rw [hcall, hrun, hresult.term_eq queues hirreducible]
  rfl

end Environment

namespace Queue

/-! ## Hosts -/

/-- What a host does to a queue. -/
inductive Action where
  | enqueue (value : Value)
  | dequeue

/-- The list after an action. -/
def Action.update (elements : List Term) : Action → List Term
  | enqueue value => elements ++ [value.term]
  | dequeue => elements.tail

/-- Whether the host may do it: only numbers are put in, and nothing is taken out
    of an empty queue. -/
def Action.Admissible (theory : Theory) (elements : List Term) : Action → Prop
  | enqueue value => value.sort = numberSort ∧ Element theory value.term
  | dequeue => elements ≠ []

/-- The list after actions, one after the other. -/
def updateAll (elements : List Term) (actions : List Action) : List Term :=
  actions.foldl Action.update elements

/-- Each action is admissible when it comes. -/
def AdmissibleAll (theory : Theory) (elements : List Term) : List Action → Prop
  | [] => True
  | action :: actions =>
    action.Admissible theory elements ∧ AdmissibleAll theory (action.update elements) actions

/-- The value after an action, which is a call on the value before. -/
def perform (environment : Environment) (fuel : Nat) (queue : Value) : Action → Except Stop Value
  | .enqueue value => environment.callOn fuel queue "enqueue" [value]
  | .dequeue => environment.callOn fuel queue "dequeue" []

/-- The value after actions, unless one of their calls fails. -/
def performAll (environment : Environment) (fuel : Nat) (queue : Value) (actions : List Action) :
    Except Stop Value :=
  actions.foldlM (perform environment fuel) queue

/-- A list of elements, written out as a queue, denotes itself. -/
theorem denotes_ofList {theory : Theory} {elements : List Term}
    (each : ∀ x ∈ elements, Element theory x) :
    Denotes theory 0 (ofList elements) (.queue elements) := by
  induction elements using List.reverseRecOn with
  | nil => exact .empty
  | append_singleton before last ih =>
    rw [ofList_concat]
    exact (ih fun x hx => each x (by simp [hx])).enqueue (each last (by simp))

section host

variable {environment : Environment} {fuel : Nat} {elements : List Term}

/-- An admissible action keeps elements, and makes at most one more. -/
theorem Action.Admissible.update {theory : Theory} {action : Action}
    (admissible : action.Admissible theory elements) (each : ∀ x ∈ elements, Element theory x) :
    (∀ x ∈ action.update elements, Element theory x) ∧
      (action.update elements).length ≤ elements.length + 1 := by
  cases action with
  | enqueue value =>
    refine ⟨?_, by simp [Action.update]⟩
    intro x hx
    rcases List.mem_append.mp hx with hx | hx
    · exact each x hx
    · rw [List.mem_singleton.mp hx]
      exact admissible.2
  | dequeue =>
    refine ⟨fun x hx => each x (List.mem_of_mem_tail hx), ?_⟩
    simp only [Action.update, List.length_tail]
    omega

/-- An admissible action on a queue that is written out gives the queue after it,
    written out. -/
theorem perform_ofList (unlimited : environment.settings.maxRewriteSteps = none)
    (queues : environment.theory.Registered .queues)
    (truth : environment.theory.Registered .truthValues)
    (each : ∀ x ∈ elements, Element environment.theory x) {action : Action}
    (admissible : action.Admissible environment.theory elements) (hfuel : elements.length ≤ fuel) :
    perform environment fuel ⟨queueSort, ofList elements⟩ action =
      .ok ⟨queueSort, ofList (action.update elements)⟩ := by
  have hdenotes := denotes_ofList each
  cases action with
  | enqueue value =>
    obtain ⟨hsort, hvalue⟩ := admissible
    have checked : Specification.queues.checkCall "enqueue" [queueSort, value.sort] =
        .ok ⟨"enqueue", [queueSort, numberSort], queueSort⟩ := by
      rw [hsort]
      rfl
    exact Environment.call_of_denotes unlimited queues truth "enqueue"
      [⟨queueSort, ofList elements⟩, value] checked queues (hdenotes.enqueue hvalue) (by omega)
  | dequeue =>
    have checked : Specification.queues.checkCall "dequeue" [queueSort] =
        .ok ⟨"dequeue", [queueSort], queueSort⟩ := rfl
    obtain ⟨first, rest, rfl⟩ := List.exists_cons_of_ne_nil admissible
    have hweight : 0 + rest.length + 1 ≤ fuel := by simpa using hfuel
    exact Environment.call_of_denotes unlimited queues truth "dequeue"
      [⟨queueSort, ofList (first :: rest)⟩] checked queues hdenotes.dequeue hweight

/-- So do admissible actions, one after the other. -/
theorem performAll_ofList (unlimited : environment.settings.maxRewriteSteps = none)
    (queues : environment.theory.Registered .queues)
    (truth : environment.theory.Registered .truthValues)
    (each : ∀ x ∈ elements, Element environment.theory x) {actions : List Action}
    (admissible : AdmissibleAll environment.theory elements actions)
    (hfuel : elements.length + actions.length ≤ fuel) :
    performAll environment fuel ⟨queueSort, ofList elements⟩ actions =
        .ok ⟨queueSort, ofList (updateAll elements actions)⟩ ∧
      (∀ x ∈ updateAll elements actions, Element environment.theory x) ∧
      (updateAll elements actions).length ≤ elements.length + actions.length := by
  induction actions generalizing elements with
  | nil => exact ⟨rfl, each, by simp [updateAll]⟩
  | cons action actions ih =>
    obtain ⟨haction, hactions⟩ := admissible
    obtain ⟨hkept, hlength⟩ := haction.update each
    rw [List.length_cons] at hfuel ⊢
    have henough : elements.length ≤ fuel := by omega
    have hperform := perform_ofList unlimited queues truth each haction henough
    obtain ⟨hlast, hall, hbound⟩ := ih hkept hactions (by omega)
    refine ⟨?_, hall, ?_⟩
    · unfold performAll
      rw [List.foldlM_cons, hperform]
      exact hlast
    · have hupdate : updateAll elements (action :: actions) =
          updateAll (action.update elements) actions := rfl
      rw [hupdate]
      omega

end host

end Queue

/-- Where numbers, truth values and queues are loaded and rewriting has no limit, a
    queue that is worked on by calls is the list that is worked on with it: what
    was enqueued and is still there, written out, the first element innermost.
    `front` gives the first element, if there is one, and `is_empty` tells whether
    there is none. No call fails, and a call takes no more firings than there were
    calls before. -/
theorem Environment.queue_is_first_in_first_out (environment : Environment)
    (unlimited : environment.settings.maxRewriteSteps = none)
    (numbers : environment.theory.Holds Specification.numbersText)
    (truth : environment.theory.Holds Specification.truthText)
    (queues : environment.theory.Holds Specification.queuesText) (actions : List Queue.Action)
    (admissible : Queue.AdmissibleAll environment.theory [] actions) (fuel : Nat)
    (hfuel : actions.length < fuel) :
    let elements := Queue.updateAll [] actions
    let queue : Value := ⟨queueSort, Queue.ofList elements⟩
    ∃ start, environment.call fuel queueSort "empty" [] = .ok start ∧
      Queue.performAll environment fuel start actions = .ok queue ∧
      (∀ first rest, elements = first :: rest →
        environment.callOn fuel queue "front" [] = .ok ⟨numberSort, first⟩) ∧
      environment.callOn fuel queue "is_empty" [] =
        .ok ⟨truthSort, .ofTruth elements.isEmpty⟩ := by
  intro elements queue
  have hnumbers := numbers.registered Specification.parse_numbersText
  have htruth := truth.registered Specification.parse_truthText
  have hqueues := queues.registered Specification.parse_queuesText
  have henough : ([] : List Term).length + actions.length ≤ fuel := by
    rw [List.length_nil]
    omega
  obtain ⟨hrun, each, hlength⟩ :=
    Queue.performAll_ofList unlimited hqueues htruth (by simp) admissible henough
  have hdenotes := Queue.denotes_ofList each
  refine ⟨⟨queueSort, Queue.empty⟩, ?_, hrun, ?_, ?_⟩
  · have checked : Specification.queues.checkCall "empty" [] = .ok ⟨"empty", [], queueSort⟩ := rfl
    exact call_of_denotes unlimited hqueues htruth "empty" [] checked hqueues .empty (by omega)
  · intro first rest helements
    have checked : Specification.queues.checkCall "front" [queueSort] =
        .ok ⟨"front", [queueSort], numberSort⟩ := rfl
    have hfirst : Queue.Denotes environment.theory 0 (Queue.ofList elements)
        (.queue (first :: rest)) := helements ▸ hdenotes
    have hweight : 0 + rest.length + 1 ≤ fuel := by
      rw [show Queue.updateAll [] actions = first :: rest from helements] at hlength
      simp only [List.length_cons, List.length_nil] at hlength
      omega
    exact call_of_denotes unlimited hqueues htruth "front" [queue] checked hnumbers hfirst.front
      hweight
  · have checked : Specification.queues.checkCall "is_empty" [queueSort] =
        .ok ⟨"is_empty", [queueSort], truthSort⟩ := rfl
    exact call_of_denotes unlimited hqueues htruth "is_empty" [queue] checked htruth
      hdenotes.isEmpty (by omega)

/-- Of two elements the first is taken out. The second is the front of the empty
    queue, which no rule explains; it is the front then. -/
theorem Environment.dequeue_of_two_leaves_second :
    let environment := (((Environment.new Settings.standard).register .numbers).register
      .truthValues).register .queues
    let unexplained := Queue.front Queue.empty
    let actions : List Queue.Action :=
      [.enqueue ⟨numberSort, .ofCount 1⟩, .enqueue ⟨numberSort, unexplained⟩, .dequeue]
    let queue : Value := ⟨queueSort, Queue.enqueue Queue.empty unexplained⟩
    environment.settings.maxRewriteSteps = none ∧
      environment.theory.Holds Specification.numbersText ∧
      environment.theory.Holds Specification.truthText ∧
      environment.theory.Holds Specification.queuesText ∧
      Queue.AdmissibleAll environment.theory [] actions ∧ actions.length < 4 ∧
      ∃ start, environment.call 4 queueSort "empty" [] = .ok start ∧
        Queue.performAll environment 4 start actions = .ok queue ∧
        environment.callOn 4 queue "front" [] = .ok ⟨numberSort, unexplained⟩ ∧
        environment.callOn 4 queue "is_empty" [] = .ok ⟨truthSort, .ofTruth false⟩ := by
  intro environment unexplained actions queue
  have numbers : environment.theory.Holds Specification.numbersText :=
    ⟨.numbers, Specification.parse_numbersText, by cbv⟩
  have truth : environment.theory.Holds Specification.truthText :=
    ⟨.truthValues, Specification.parse_truthText, by cbv⟩
  have queues : environment.theory.Holds Specification.queuesText :=
    ⟨.queues, Specification.parse_queuesText, by cbv⟩
  have hone : environment.normalize 0 (.ofCount 1) = .ok (.ofCount 1) := by cbv
  have hunexplained : environment.normalize 0 unexplained = .ok unexplained := by cbv
  have admissible : Queue.AdmissibleAll environment.theory [] actions :=
    ⟨⟨rfl, rfl, irreducible_of_normalize hone⟩, ⟨rfl, rfl, irreducible_of_normalize hunexplained⟩,
      by simp [Queue.Action.Admissible, Queue.Action.update], trivial⟩
  obtain ⟨start, hstart, hrun, hfront, hempty⟩ := queue_is_first_in_first_out environment rfl
    numbers truth queues actions admissible 4 (by decide)
  exact ⟨rfl, numbers, truth, queues, admissible, by decide, start, hstart, hrun,
    hfront unexplained [] rfl, hempty⟩

end Equational
