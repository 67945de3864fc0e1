import Equational.Proofs.Yaml.Lines
import Equational.Yaml.Document
import Mathlib

/-! # The mapping of plain lines

    The tokens of a document of lines are read as a mapping with an entry for each
    line, in their order (`Node.ofText?_document`). Nothing in it has a label, so
    there are no aliases to replace.

    Readers take tokens and leave others. That one **gives** a node is told
    without the fact that it takes some, which differs with each list of tokens.
-/

namespace Equational.Yaml

namespace Taken

variable {bound : Nat} {α : Type}

/-- The reader succeeds with the value, and leaves the tokens `rest`. -/
def Gives (result : Option (Taken bound α)) (value : α) (rest : List Token) : Prop :=
  ∃ fewer, result = some ⟨value, rest, fewer⟩

end Taken

open Taken (Gives)

/-! ## Scalars -/

theorem readNode?_scalar (handles : Handles) (inBlock bareItems : Bool) (style : Style)
    (text : String) (rest : List Token) :
    Gives (readNode? handles inBlock bareItems (.scalar style text :: rest))
      (.scalar Label.none style text) rest := by
  refine ⟨Nat.lt_succ_self _, ?_⟩
  rw [readNode?]
  · rfl
  · intro name rest h
    cases h

theorem readPart?_scalar (handles : Handles) {ends : Token → Bool} (inBlock bareItems : Bool)
    {style : Style} {text : String} (hends : ends (.scalar style text) = false)
    (rest : List Token) :
    Gives (readPart? handles ends inBlock bareItems (.scalar style text :: rest))
      (.scalar Label.none style text) rest := by
  obtain ⟨_, hnode⟩ := readNode?_scalar handles inBlock bareItems style text rest
  refine ⟨Nat.lt_succ_of_lt (Nat.lt_succ_self _), ?_⟩
  rw [readPart?, hnode]
  simp [hends]

theorem readValue?_scalar (handles : Handles) {ends : Token → Bool} (inBlock : Bool)
    {style : Style} {text : String} (hends : ends (.scalar style text) = false)
    (rest : List Token) :
    Gives (readValue? handles ends inBlock (.value :: .scalar style text :: rest))
      (.scalar Label.none style text) rest := by
  obtain ⟨_, hpart⟩ := readPart?_scalar handles inBlock inBlock hends rest
  refine ⟨Nat.lt_succ_of_lt (Nat.lt_succ_of_lt (Nat.lt_succ_self _)), ?_⟩
  rw [readValue?, hpart]
  rfl

/-! ## Lines -/

/-- The entry of a mapping that a line is. -/
def Line.entry (line : Line) : Node × Node :=
  (.scalar Label.none .plain line.name, .scalar Label.none .plain line.value)

/-- The entries of a mapping are read line by line. -/
theorem readBlockEntries?_lines (handles : Handles) (lines : List Line) (rest : List Token) :
    Gives (readBlockEntries? handles (lines.flatMap Line.tokens ++ .blockEnd :: rest))
      (lines.map Line.entry) rest := by
  induction lines with
  | nil =>
    show Gives (readBlockEntries? handles (.blockEnd :: rest)) [] rest
    refine ⟨Nat.lt_succ_self _, ?_⟩
    rw [readBlockEntries?]
  | cons line lines ih =>
    obtain ⟨hfewer, hentries⟩ := ih
    let behind := lines.flatMap Line.tokens ++ .blockEnd :: rest
    obtain ⟨_, hvalue⟩ : Gives (readValue? handles endsBlockPart true
        (.value :: .scalar .plain line.value :: behind)) _ behind :=
      readValue?_scalar handles true rfl behind
    obtain ⟨_, hname⟩ : Gives (readPart? handles endsBlockPart true true
        (.scalar .plain line.name :: .value :: .scalar .plain line.value :: behind)) _ _ :=
      readPart?_scalar handles true true rfl _
    show Gives (readBlockEntries? handles (.key :: .scalar .plain line.name :: .value ::
      .scalar .plain line.value :: behind)) _ rest
    refine ⟨by simp only [List.length_cons, behind]; omega, ?_⟩
    rw [readBlockEntries?]
    simp only [hname, hvalue, hentries, behind, bind, Option.bind]
    rfl

/-- Labels without anchors have nothing to give to aliases. -/
theorem expandEntries?_lines (nodes : List (Nat × Node)) (lines : List Line) :
    Node.expandEntries? nodes [] (lines.map Line.entry) = some (lines.map Line.entry, []) := by
  induction lines with
  | nil => rfl
  | cons line lines ih =>
    have hscalar : ∀ text, Node.expand? nodes [] (.scalar Label.none .plain text) =
        some (.scalar Label.none .plain text, []) := by
      intro text
      rw [Node.expand?]
      rfl
    rw [List.map_cons, Line.entry, Node.expandEntries?]
    simp [hscalar, ih]

/-- A document of lines, at least one, is the mapping of their names to their
    values. -/
theorem Node.ofText?_document {lines : List Line} (hne : lines ≠ []) :
    Node.ofText? (Line.document lines) =
      some (some (.mapping Label.none (lines.map Line.entry))) := by
  obtain ⟨_, hentries⟩ := readBlockEntries?_lines [] lines []
  have hnode : Gives (readNode? [] true false
      (.blockMappingStart :: (lines.flatMap Line.tokens ++ [.blockEnd])))
      (.mapping Label.none (lines.map Line.entry)) [] := by
    refine ⟨Nat.succ_pos _, ?_⟩
    rw [readNode?]
    · show (readBlockEntries? [] (lines.flatMap Line.tokens ++ [.blockEnd])).map _ = _
      rw [hentries]
      rfl
    · intro name rest h
      cases h
  obtain ⟨_, hnode⟩ := hnode
  rw [ofText?, Token.ofText?_document hne, Option.bind_some]
  simp [ofTokens?, readDocument?, endsDocument, hnode, withoutAliases?, expand?,
    expandEntries?_lines, Anchors.addLabel, Label.none]

end Equational.Yaml
