import Equational.Proofs.Json.RoundTrip
import Equational.Proofs.Specification.RoundTrip
import Equational.Proofs.Term.Number
import Mathlib

/-! # Literals in the rules of a specification

    A literal that stands in a rule has a known sort, and nothing more is asked
    of it where it is read. When this is the own sort, the literal's operations
    may be missing, and then the parts of the specification are not accepted:
    neither from its JSON form nor from its text is it read back.

    `accepted_iff_declaresLiterals` says when it is: exactly when each node in
    the rules that a literal can have put there is declared. A specification of
    neither numbers nor truth values has none of its own.
-/

namespace Equational

/-! ## The nodes of literals -/

namespace Term

/-- The nodes of the terms that numbers and truth values stand for. -/
inductive LiteralNode : Term → Prop where
  | zero : LiteralNode (constant "zero" numberSort)
  | increment (t : Term) : LiteralNode t.increment
  | truth {name : String} : name = "true" ∨ name = "false" → LiteralNode (constant name truthSort)

theorem LiteralNode.isApplication {u : Term} (h : LiteralNode u) : u.isApplication = true := by
  cases h with
  | zero => rfl
  | increment t => rfl
  | truth => rfl

/-- The names of literals can be written. -/
theorem LiteralNode.lexical {u : Term} (h : LiteralNode u) : Lexical u.name ∧ Lexical u.sort := by
  cases h with
  | zero => exact ⟨(by decide : Lexical "zero"), (by decide : Lexical "Number")⟩
  | increment t => exact ⟨(by decide : Lexical "inc"), (by decide : Lexical "Number")⟩
  | truth hname =>
    rcases hname with rfl | rfl
    · exact ⟨(by decide : Lexical "true"), (by decide : Lexical "bool")⟩
    · exact ⟨(by decide : Lexical "false"), (by decide : Lexical "bool")⟩

theorem literalNode_of_ofCount {count : Nat} {u : Term} (h : u.Subterm (ofCount count)) :
    LiteralNode u ∧ u.sort = numberSort := by
  obtain ⟨lower, -, rfl⟩ := exists_ofCount_of_subterm h
  refine ⟨?_, sort_ofCount lower⟩
  cases lower with
  | zero => exact .zero
  | succ lower =>
    rw [ofCount_succ]
    exact .increment (ofCount lower)

end Term

/-- The terms of numbers and truth values consist of literal nodes in one sort. -/
theorem Literal.literalNode_of_subterm {literal : Literal}
    (hliteral : literal = number ∨ literal = truth) {name sort : String} {term u : Term}
    (hterm : literal name sort = some term) (hu : u.Subterm term) :
    u.LiteralNode ∧ u.sort = term.sort := by
  rcases hliteral with rfl | rfl
  · unfold number at hterm
    split at hterm
    · cases hterm
      obtain ⟨hnode, hsort⟩ := Term.literalNode_of_ofCount hu
      obtain ⟨-, hroot⟩ := Term.literalNode_of_ofCount (.refl _)
      exact ⟨hnode, hsort.trans hroot.symm⟩
    · simp at hterm
  · unfold truth at hterm
    split at hterm
    · rename_i hname
      cases hterm
      obtain rfl := Term.eq_of_subterm_of_arguments_eq_nil hu rfl
      exact ⟨.truth hname, rfl⟩
    · simp at hterm

/-- Numbers and truth values have lexical names and no variables. -/
theorem Literal.closed {literal : Literal} (hliteral : literal = number ∨ literal = truth) :
    literal.Closed := by
  intro name sort term hterm u hu
  obtain ⟨hnode, -⟩ := literalNode_of_subterm hliteral hterm hu
  refine ⟨hnode.lexical, ?_⟩
  have happlication := hnode.isApplication
  cases u with
  | app => rfl
  | var => simp [Term.isApplication] at happlication

namespace Specification

variable {specification : Specification} {literals : List Literal} {text : String}

/-- Nodes of literals that stand in the rules are declared, as far as they are
    of the own sort. -/
def DeclaresLiterals (specification : Specification) : Prop :=
  ∀ u, specification.Contains u → u.LiteralNode → u.sort = specification.name →
    specification.toSignature.Declares u.name u.arguments.length

/-- Of other sorts there are no literals. -/
theorem declaresLiterals_of_ne (hnumber : specification.name ≠ numberSort)
    (htruth : specification.name ≠ truthSort) : specification.DeclaresLiterals := by
  intro u _ hnode hsort
  cases hnode with
  | zero => exact absurd hsort.symm hnumber
  | increment t => exact absurd hsort.symm hnumber
  | truth => exact absurd hsort.symm htruth

/-- Literals are all that keeps a specification that was read from being well
    formed. -/
theorem wellFormed_iff_declaresLiterals
    (hliterals : ∀ literal ∈ literals, literal = Literal.number ∨ literal = Literal.truth)
    (h : parse text literals = .ok specification) :
    specification.WellFormed ↔ specification.DeclaresLiterals := by
  rw [wellFormed_iff_of_parse h]
  constructor
  · intro hallows u hu hnode hsort
    rcases named_or_inLiteral_of_parse h hu with hnamed | hin
    · exact (hnamed.allowed _ rfl).declared hnode.isApplication hsort
    · exact (hallows u hu hin).declared hnode.isApplication hsort
  · intro hdeclares u hu hin
    obtain ⟨name, sort, term, hread, hknows, hsub⟩ := hin
    obtain ⟨literal, hliteral, hterm⟩ := List.exists_of_findSome?_eq_some hread
    obtain ⟨hnode, hsort⟩ := Literal.literalNode_of_subterm (hliterals literal hliteral) hterm hsub
    refine ⟨?_, fun _ hown => hdeclares u hu hnode hown⟩
    rw [hsort]
    exact hknows _ rfl

/-- A specification that was read is accepted again, from its parts, from its
    JSON form and from its text, exactly when its literals are declared; and it is
    where it specifies neither numbers nor truth values. -/
theorem accepted_iff_declaresLiterals
    (hliterals : ∀ literal ∈ literals, literal = Literal.number ∨ literal = Literal.truth)
    (h : parse text literals = .ok specification) :
    (build specification.name specification.dependencies specification.operations
        specification.rules = .ok specification ↔ specification.DeclaresLiterals) ∧
      (ofJson specification.toJson = .ok specification ↔ specification.DeclaresLiterals) ∧
      (parse specification.text [] = .ok specification ↔ specification.DeclaresLiterals) ∧
      (specification.name ≠ numberSort → specification.name ≠ truthSort →
        specification.DeclaresLiterals) := by
  -- all three come down to whether the specification is well formed
  have hformed := wellFormed_iff_declaresLiterals hliterals h
  have hbuild : build specification.name specification.dependencies specification.operations
      specification.rules = .ok specification ↔ specification.DeclaresLiterals := by
    rw [build_eq_ok_iff, ← hformed]
    simp
  refine ⟨hbuild, by rw [ofJson_toJson_eq_ok_iff, hbuild], ?_, declaresLiterals_of_ne⟩
  rw [← hformed]
  constructor
  · exact wellFormed_of_parse_nil
  · intro hformed
    have hclosed := fun literal hliteral => Literal.closed (hliterals literal hliteral)
    exact parse_of_writable (writable_of_parse hclosed h hformed)

/-- A sort of numbers with the rule `f(X) = 0`. -/
def constantZero (operations : List Operation) : Specification where
  name := numberSort
  dependencies := []
  operations := operations
  rules := [⟨.app "f" numberSort [.var "X" numberSort], .ofCount 0, rfl⟩]

/-- With `zero()` among its operations, it is accepted again. -/
theorem constantZero_accepted :
    parse ("type: Number sorts: operations: zero() -> Number f(Number) -> Number " ++
        "axioms: f(X) = 0") Literal.standard =
        .ok (constantZero [⟨"zero", [], numberSort⟩, ⟨"f", [numberSort], numberSort⟩]) ∧
      (constantZero [⟨"zero", [], numberSort⟩,
        ⟨"f", [numberSort], numberSort⟩]).DeclaresLiterals ∧
      parse (constantZero [⟨"zero", [], numberSort⟩, ⟨"f", [numberSort], numberSort⟩]).text [] =
        .ok (constantZero [⟨"zero", [], numberSort⟩, ⟨"f", [numberSort], numberSort⟩]) := by
  have hparse : parse ("type: Number sorts: operations: zero() -> Number " ++
      "f(Number) -> Number axioms: f(X) = 0") Literal.standard =
      .ok (constantZero [⟨"zero", [], numberSort⟩, ⟨"f", [numberSort], numberSort⟩]) := by cbv
  have hbuild : build numberSort [] [⟨"zero", [], numberSort⟩, ⟨"f", [numberSort], numberSort⟩]
      (constantZero []).rules =
      .ok (constantZero [⟨"zero", [], numberSort⟩, ⟨"f", [numberSort], numberSort⟩]) := by cbv
  obtain ⟨hparts, -, htext, -⟩ := accepted_iff_declaresLiterals (by simp [Literal.standard]) hparse
  have hdeclares := hparts.mp hbuild
  exact ⟨hparse, hdeclares, htext.mpr hdeclares⟩

/-- Without it, the same rule is read, and then refused in each of the three
    ways. -/
theorem constantZero_refused :
    parse "type: Number sorts: operations: f(Number) -> Number axioms: f(X) = 0"
        Literal.standard = .ok (constantZero [⟨"f", [numberSort], numberSort⟩]) ∧
      build numberSort [] [⟨"f", [numberSort], numberSort⟩] (constantZero []).rules =
        .error (.unknownOperation numberSort "zero") ∧
      ofJson (constantZero [⟨"f", [numberSort], numberSort⟩]).toJson =
        .error (.invalid (.unknownOperation numberSort "zero")) ∧
      parse (constantZero [⟨"f", [numberSort], numberSort⟩]).text [] =
        .error (.signature (.unknownOperation numberSort "zero")) := by
  have htext : (constantZero [⟨"f", [numberSort], numberSort⟩]).text =
      "type: Number\nsorts: \noperations:\n\tf(Number) -> Number\naxioms:\n\tf(X) = zero()\n" := by
    cbv
  refine ⟨by cbv, by cbv, ?_, ?_⟩
  · rw [ofJson_toJson]
    cbv
  · rw [htext]
    cbv

end Specification

end Equational
