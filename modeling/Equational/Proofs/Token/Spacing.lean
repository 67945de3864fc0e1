import Equational.Proofs.Token.Spelling

/-! # Spacing

    Blanks mean nothing beyond where they stand apart two lexemes. The lexemes of
    a text may be written out again, each as its own text, with any blanks before
    the first and behind the last and with one blank at least between two of them:
    the new text is scanned into the same lexemes, whatever stood between them in
    the old one.

    So the text of a lexeme says where it ends by itself. A word is not cut at a
    blank that is put behind it, and a symbol that was written close to a word is
    the same symbol away from it.
-/

namespace Equational

/-! ## Blanks between lexemes -/

/-- A text of nothing but blanks. -/
def Blank (gap : String) : Prop :=
  ∀ c ∈ gap.toList, isBlank c = true

/-- The blanks to write `count` lexemes with: those before the first one, and
    those behind each. There is a blank behind each but the last at least. -/
structure Spacing (count : Nat) where
  lead : String
  gaps : List String
  length_gaps : gaps.length = count
  blank_lead : Blank lead
  blank_gaps : ∀ gap ∈ gaps, Blank gap
  apart : ∀ gap ∈ gaps.dropLast, gap ≠ ""

/-- The texts of the lexemes, with a gap behind each. -/
def Lexeme.withGaps : List Lexeme → List String → String
  | lexeme :: lexemes, gap :: gaps => lexeme.text ++ gap ++ withGaps lexemes gaps
  | _, _ => ""

/-- The lexemes, written out with these blanks. -/
def Spacing.write {count : Nat} (spacing : Spacing count) (lexemes : List Lexeme) : String :=
  spacing.lead ++ Lexeme.withGaps lexemes spacing.gaps

/-- A word ends before a blank. -/
theorem Blank.endsWord {gap : String} (hblank : Blank gap) (hne : gap ≠ "") (rest : List Char) :
    endsWord (gap.toList ++ rest) = true := by
  obtain ⟨c, more, hgap⟩ : ∃ c more, gap.toList = c :: more := by
    apply List.exists_cons_of_ne_nil
    intro hnil
    exact hne (String.toList_eq_nil_iff.mp hnil)
  rw [hgap, List.cons_append, endsWord_cons]
  exact .inl (hblank c (by rw [hgap]; exact List.mem_cons_self))

namespace Spells

/-- Blanks before a text change nothing of what it spells. -/
theorem blanks {characters : List Char} {lexemes : List Lexeme} (h : Spells characters lexemes)
    {front : List Char} (hfront : ∀ c ∈ front, isBlank c = true) :
    Spells (front ++ characters) lexemes := by
  induction front with
  | nil => exact h
  | cons c front ih =>
    rw [List.forall_mem_cons] at hfront
    exact .blank hfront.1 (ih hfront.2)

/-- Lexemes that are written apart are spelled. -/
theorem withGaps {lexemes : List Lexeme} (hformed : ∀ lexeme ∈ lexemes, lexeme.WellFormed)
    {gaps : List String} (hlength : gaps.length = lexemes.length)
    (hblank : ∀ gap ∈ gaps, Blank gap) (hapart : ∀ gap ∈ gaps.dropLast, gap ≠ "") :
    Spells (Lexeme.withGaps lexemes gaps).toList lexemes := by
  induction lexemes generalizing gaps with
  | nil => exact .nil
  | cons lexeme lexemes ih =>
    obtain ⟨gap, gaps, rfl⟩ := List.exists_cons_of_length_eq_add_one hlength
    rw [List.forall_mem_cons] at hformed hblank
    have hlength' : gaps.length = lexemes.length := Nat.succ.inj hlength
    have hrest : Spells (Lexeme.withGaps lexemes gaps).toList lexemes := by
      refine ih hformed.2 hlength' hblank.2 fun other hother => hapart other ?_
      cases gaps with
      | nil => simp at hother
      | cons next gaps => exact List.mem_cons_of_mem gap hother
    rw [Lexeme.withGaps, String.toList_append, String.toList_append, List.append_assoc]
    refine .lexeme hformed.1 (fun _ => ?_) (hrest.blanks hblank.1)
    cases gaps with
    | nil =>
      -- the last lexeme ends at a blank, or with the text
      have hnone : lexemes = [] := List.eq_nil_of_length_eq_zero hlength'.symm
      subst hnone
      by_cases hempty : gap = ""
      · subst hempty
        rfl
      · exact hblank.1.endsWord hempty _
    | cons next gaps =>
      exact hblank.1.endsWord (hapart gap List.mem_cons_self) _

end Spells

/-- The lexemes of a text, however they are written apart, are the lexemes of
    what is written. -/
theorem Spacing.tokenize_write {text : String} {tokens : List Token}
    (h : Token.tokenize text = .ok tokens) (spacing : Spacing tokens.length) :
    ∃ others, Token.tokenize (spacing.write (tokens.map Token.lexeme)) = .ok others ∧
      others.map Token.lexeme = tokens.map Token.lexeme := by
  have hspells := Token.tokenize_iff_spells.mp ⟨tokens, h, rfl⟩
  have hgaps : spacing.gaps.length = (tokens.map Token.lexeme).length := by
    rw [spacing.length_gaps, List.length_map]
  apply Token.tokenize_iff_spells.mpr
  rw [write, String.toList_append]
  apply Spells.blanks _ spacing.blank_lead
  exact .withGaps hspells.wellFormed hgaps spacing.blank_gaps spacing.apart

end Equational
