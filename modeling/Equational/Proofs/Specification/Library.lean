import Equational.Proofs.Rewriting.Derivation
import Equational.Proofs.Specification.Numbers
import Equational.Specification.Parser
import Mathlib

/-! # A small library

    Three texts that are usually loaded together, of numbers, of truth values and
    of queues of numbers, and the specifications that they give.

    A queue is built from `empty()` by `enqueue(_, _)`, which puts an element
    behind those there are. `dequeue(_)` and `front(_)` go down to the element that
    was put in first; on an empty queue no rule says what they are.
-/

namespace Equational

namespace Specification

/-- The text of lines, each of them ended. -/
def ofLines (lines : List String) : String :=
  String.join (lines.map (· ++ "\n"))

/-- Numbers with addition. -/
def numbersText : String :=
  ofLines [
    "type: Number",
    "sorts:",
    "operations:",
    "    zero() -> Number",
    "    inc(Number) -> Number",
    "    add(Number, Number) -> Number",
    "axioms:",
    "    add(zero(), Y) = Y",
    "    add(inc(X), Y) = inc(add(X, Y))"]

/-- Truth values with negation and equality. -/
def truthText : String :=
  ofLines [
    "type: bool",
    "sorts:",
    "operations:",
    "    true() -> bool",
    "    false() -> bool",
    "    not(bool) -> bool",
    "    eq(bool, bool) -> bool",
    "axioms:",
    "    not(true()) = false()",
    "    not(false()) = true()",
    "    eq(X, X) = true()",
    "    eq(true(), false()) = false()",
    "    eq(false(), true()) = false()"]

/-- Queues of numbers. -/
def queuesText : String :=
  ofLines [
    "type: Queue",
    "sorts: Number, bool",
    "operations:",
    "    empty() -> Queue",
    "    enqueue(Queue, Number) -> Queue",
    "    dequeue(Queue) -> Queue",
    "    front(Queue) -> Number",
    "    is_empty(Queue) -> bool",
    "axioms:",
    "    dequeue(enqueue(empty(), X)) = empty()",
    "    dequeue(enqueue(enqueue(Q, Y), X)) = enqueue(dequeue(enqueue(Q, Y)), X)",
    "    front(enqueue(empty(), X)) = X",
    "    front(enqueue(enqueue(Q, Y), X)) = front(enqueue(Q, Y))",
    "    is_empty(empty()) = bool:true()",
    "    is_empty(enqueue(Q, X)) = bool:false()"]

end Specification

namespace Term

/-- A truth value as a term. -/
def ofTruth (value : Bool) : Term :=
  constant (if value then "true" else "false") truthSort

end Term

/-! ## Queues as terms -/

/-- The sort of queues. -/
def queueSort : String := "Queue"

namespace Queue

/-- The queue without elements. -/
def empty : Term := .constant "empty" queueSort

/-- A queue with one more element at its end. -/
def enqueue (queue element : Term) : Term :=
  .app "enqueue" queueSort [queue, element]

/-- A queue without its first element, not worked out. -/
def dequeue (queue : Term) : Term :=
  .app "dequeue" queueSort [queue]

/-- The first element of a queue, not worked out. -/
def front (queue : Term) : Term :=
  .app "front" queueSort [queue]

/-- Whether a queue is empty, not worked out. -/
def isEmpty (queue : Term) : Term :=
  .app "is_empty" queueSort [queue]

end Queue

/-! ## Specifications -/

namespace Specification

/-- Truth values, with their rules for negation and equality. -/
def truthValues : Specification where
  name := truthSort
  dependencies := []
  operations :=
    [⟨"true", [], truthSort⟩, ⟨"false", [], truthSort⟩, ⟨"not", [truthSort], truthSort⟩,
      ⟨"eq", [truthSort, truthSort], truthSort⟩]
  rules :=
    let x := Term.var "X" truthSort
    let eq := fun left right => Term.app "eq" truthSort [left, right]
    [⟨.app "not" truthSort [.ofTruth true], .ofTruth false, rfl⟩,
      ⟨.app "not" truthSort [.ofTruth false], .ofTruth true, rfl⟩,
      ⟨eq x x, .ofTruth true, rfl⟩,
      ⟨eq (.ofTruth true) (.ofTruth false), .ofTruth false, rfl⟩,
      ⟨eq (.ofTruth false) (.ofTruth true), .ofTruth false, rfl⟩]

/-- Queues of numbers. The variables are written in the sort of queues, where
    they stand for numbers too. -/
def queues : Specification where
  name := queueSort
  dependencies := [numberSort, truthSort]
  operations :=
    [⟨"empty", [], queueSort⟩, ⟨"enqueue", [queueSort, numberSort], queueSort⟩,
      ⟨"dequeue", [queueSort], queueSort⟩, ⟨"front", [queueSort], numberSort⟩,
      ⟨"is_empty", [queueSort], truthSort⟩]
  rules :=
    let q := Term.var "Q" queueSort
    let x := Term.var "X" queueSort
    let y := Term.var "Y" queueSort
    let one := Queue.enqueue Queue.empty x
    let more := Queue.enqueue (Queue.enqueue q y) x
    [⟨Queue.dequeue one, Queue.empty, rfl⟩,
      ⟨Queue.dequeue more, Queue.enqueue (Queue.dequeue (Queue.enqueue q y)) x, rfl⟩,
      ⟨Queue.front one, x, rfl⟩,
      ⟨Queue.front more, Queue.front (Queue.enqueue q y), rfl⟩,
      ⟨Queue.isEmpty Queue.empty, .ofTruth true, rfl⟩,
      ⟨Queue.isEmpty (Queue.enqueue q x), .ofTruth false, rfl⟩]

/-- The specification that the characters of lines make up. -/
theorem parse_ofLines (lines : List String) (literals : List Literal) :
    parse (ofLines lines) literals =
      match Cursor.tokensFrom [] ⟨lines.flatMap fun line => line.toList ++ ['\n'], 0⟩ with
      | .ok tokens => ofTokens literals tokens
      | .error error => .error (.lexical error) := by
  have htext : (ofLines lines).toList = lines.flatMap fun line => line.toList ++ ['\n'] := by
    simp [ofLines, String.toList_join, List.flatMap_map]
  rw [← htext]
  unfold parse readTokens Token.tokenize Cursor.ofText
  cases Cursor.tokensFrom [] ⟨(ofLines lines).toList, 0⟩ <;> rfl

theorem parse_numbersText : parse numbersText [] = .ok numbers := by
  rw [numbersText, parse_ofLines]
  cbv

theorem parse_truthText : parse truthText [] = .ok truthValues := by
  rw [truthText, parse_ofLines]
  cbv

theorem parse_queuesText : parse queuesText [] = .ok queues := by
  rw [queuesText, parse_ofLines]
  cbv

end Specification

namespace Theory

/-- The theory holds the specification that a text gives. -/
def Holds (theory : Theory) (text : String) : Prop :=
  ∃ specification, Specification.parse text [] = .ok specification ∧
    theory.Registered specification

theorem Holds.registered {theory : Theory} {text : String} {specification : Specification}
    (h : theory.Holds text) (hparse : Specification.parse text [] = .ok specification) :
    theory.Registered specification := by
  obtain ⟨found, hfound, registered⟩ := h
  rw [hparse, Except.ok.injEq] at hfound
  rw [hfound]
  exact registered

end Theory

end Equational
