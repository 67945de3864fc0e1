import Equational.Proofs.Text.Lines

/-! # Places and byte offsets

    A line and a column say as much as a byte offset. The walk to an offset only
    moves on, so places stand in the order of their offsets. And an offset can be
    read off the lines of the text, at its place: `Position.offset?` counts the bytes
    of the lines above, each with its line feed, and those of the characters before
    the place in its own line. It finds the offsets between two characters, and no
    others; any other offset has the place of the end of the text.

    All this is about the numbers as an editor is handed them, in 32 bits. Line and
    column are above the number of bytes before the place by one at most, so they fit
    where the text has less than `2 ^ 32 - 1` bytes.
-/

namespace Equational

open String (utf8Len)

/-! ## Offsets between characters -/

/-- The offset is at one of the ends of the text or between two of its characters. -/
def Boundary (text : String) (offset : Nat) : Prop :=
  (⟨offset⟩ : String.Pos.Raw).IsValid text

instance (text : String) (offset : Nat) : Decidable (Boundary text offset) :=
  inferInstanceAs (Decidable ((⟨offset⟩ : String.Pos.Raw).IsValid text))

theorem boundary_iff {text : String} {offset : Nat} :
    Boundary text offset ↔
      ∃ before rest, text.toList = before ++ rest ∧ offset = utf8Len before := by
  rw [Boundary, String.Pos.Raw.isValid_iff_exists_append]
  constructor
  · rintro ⟨front, back, rfl, hoffset⟩
    refine ⟨front.toList, back.toList, String.toList_append, ?_⟩
    rw [String.utf8Len_toList]
    exact congrArg String.Pos.Raw.byteIdx hoffset
  · rintro ⟨before, rest, htext, rfl⟩
    refine ⟨String.ofList before, String.ofList rest, ?_, ?_⟩
    · rw [← String.ofList_append, ← htext, String.ofList_toList]
    · rw [String.rawEndPos_ofList]

namespace Position

/-! ## The order of places -/

/-- Places are in the order of their lines, and in one line of their columns. -/
instance : Preorder Position :=
  Preorder.lift fun position => toLex (position.line, position.column)

theorem lt_iff {position other : Position} :
    position < other ↔
      position.line < other.line ∨ position.line = other.line ∧ position.column < other.column :=
  Prod.Lex.toLex_lt_toLex

/-- One character moves the place on. -/
theorem lt_after (position : Position) (c : Char) : position < position.after c := by
  rw [lt_iff, after]
  by_cases hc : c = '\n'
  · rw [if_pos hc]
    exact .inl (Nat.lt_succ_self _)
  · rw [if_neg hc]
    exact .inr ⟨rfl, Nat.lt_succ_self _⟩

theorem le_foldl_after (position : Position) (characters : List Char) :
    position ≤ characters.foldl after position := by
  induction characters generalizing position with
  | nil => exact le_refl position
  | cons c rest ih => exact (position.lt_after c).le.trans (ih (position.after c))

/-- And so do some characters. -/
theorem lt_foldl_after (position : Position) {characters : List Char} (hne : characters ≠ []) :
    position < characters.foldl after position := by
  cases characters with
  | nil => exact absurd rfl hne
  | cons c rest => exact (position.lt_after c).trans_le (le_foldl_after _ rest)

/-- Of two beginnings of a text, the longer one leads to the later place. -/
theorem behind_lt_behind {before longer rest rest' : List Char}
    (htext : before ++ rest = longer ++ rest') (hlen : utf8Len before < utf8Len longer) :
    behind before < behind longer := by
  rcases List.append_eq_append_iff.mp htext with ⟨more, rfl, -⟩ | ⟨more, rfl, -⟩
  · have hne : more ≠ [] := by
      rintro rfl
      simp at hlen
    rw [behind, behind, List.foldl_append]
    exact lt_foldl_after _ hne
  · rw [String.utf8Len_append] at hlen
    omega

theorem atOffset_lt_atOffset {text : String} {offset later : Nat} (hoffset : Boundary text offset)
    (hlater : Boundary text later) (hlt : offset < later) :
    atOffset text offset < atOffset text later := by
  obtain ⟨before, rest, htext, rfl⟩ := boundary_iff.mp hoffset
  obtain ⟨longer, rest', htext', rfl⟩ := boundary_iff.mp hlater
  rw [atOffset_eq htext, atOffset_eq htext']
  exact behind_lt_behind (htext.symm.trans htext') hlt

/-! ## Other offsets -/

/-- Where the characters cannot be cut at the offset, the walk goes to their end. -/
theorem walk_of_no_cut (position : Position) {characters : List Char} {offset : Nat}
    (h : ∀ before rest, characters = before ++ rest → offset ≠ utf8Len before) :
    position.walk characters offset = characters.foldl after position := by
  induction characters generalizing position offset with
  | nil => rfl
  | cons c rest ih =>
    have hne : offset ≠ 0 := h [] (c :: rest) rfl
    rw [walk, if_neg hne]
    by_cases hfits : c.utf8Size ≤ offset
    · rw [if_pos hfits]
      -- a cut of the rest is one of all, a character further on
      refine ih (position.after c) fun before rest' hrest hoffset => ?_
      have hcut : c :: rest = (c :: before) ++ rest' := by rw [hrest, List.cons_append]
      apply h (c :: before) rest' hcut
      rw [String.utf8Len_cons]
      omega
    · rw [if_neg hfits]

theorem atOffset_of_not_boundary {text : String} {offset : Nat} (h : ¬ Boundary text offset) :
    atOffset text offset = behind text.toList := by
  refine walk_of_no_cut first fun before rest htext hoffset => h ?_
  exact boundary_iff.mpr ⟨before, rest, htext, hoffset⟩

theorem atOffset_utf8ByteSize (text : String) :
    atOffset text text.utf8ByteSize = behind text.toList := by
  rw [← String.utf8Len_toList]
  exact atOffset_eq (List.append_nil _).symm

theorem atOffset_of_lt {text : String} {offset : Nat} (h : text.utf8ByteSize < offset) :
    atOffset text offset = atOffset text text.utf8ByteSize := by
  have hnot : ¬ Boundary text offset := fun hboundary =>
    absurd hboundary.le_utf8ByteSize (Nat.not_le.mpr h)
  rw [atOffset_of_not_boundary hnot, atOffset_utf8ByteSize]

/-- The place of any offset is behind some beginning of the text. -/
theorem exists_atOffset_eq (text : String) (offset : Nat) :
    ∃ before rest, text.toList = before ++ rest ∧ atOffset text offset = behind before := by
  by_cases hboundary : Boundary text offset
  · obtain ⟨before, rest, htext, rfl⟩ := boundary_iff.mp hboundary
    exact ⟨before, rest, htext, atOffset_eq htext⟩
  · exact ⟨text.toList, [], (List.append_nil _).symm, atOffset_of_not_boundary hboundary⟩

/-- Nothing is lost in 32 bits, unless the text is too long. -/
theorem wrapped_atOffset {text : String} (hsize : text.utf8ByteSize < 2 ^ 32 - 1) (offset : Nat) :
    (atOffset text offset).wrapped = atOffset text offset := by
  obtain ⟨before, rest, htext, hplace⟩ := exists_atOffset_eq text offset
  obtain ⟨ended, line, hlines⟩ := exists_linesBefore before
  have hcounts := hlines.length_le
  have hbytes : text.utf8ByteSize = utf8Len before + utf8Len rest := by
    rw [← String.utf8Len_toList, htext, String.utf8Len_append]
  rw [hplace, hlines.behind_eq]
  apply wrapped_eq_self
  · show ended.length + 1 < 2 ^ 32
    omega
  · show line.length + 1 < 2 ^ 32
    omega

/-! ## The offset of a place -/

/-- The offset of a place, read off the lines of the text: the bytes of the lines
    above, each with its line feed, and those of the characters before the place in
    its line. A place that is in none of the lines has no offset. -/
def offset? (text : String) : Position → Option Nat
  | ⟨above + 1, ahead + 1⟩ =>
    let lines := text.toList.splitOn '\n'
    match lines.drop above with
    | line :: _ =>
      if ahead ≤ line.length then
        some (utf8Len (withLineFeeds (lines.take above)) + utf8Len (line.take ahead))
      else none
    | [] => none
  | _ => none

/-- The place of an offset takes the lines of the text apart: some lines are above,
    and its own line is divided in two. -/
theorem offset?_eq_some_iff {text : String} {position : Position} {offset : Nat} :
    offset? text position = some offset ↔
      ∃ (above : List (List Char)) (front back : List Char) (below : List (List Char)),
        text.toList.splitOn '\n' = above ++ (front ++ back) :: below ∧
        position = ⟨above.length + 1, front.length + 1⟩ ∧
        offset = utf8Len (withLineFeeds above ++ front) := by
  constructor
  · intro h
    unfold offset? at h
    split at h
    · rename_i above ahead
      dsimp only at h
      generalize text.toList.splitOn '\n' = lines at h
      split at h
      · rename_i line below hdrop
        by_cases hahead : ahead ≤ line.length
        · rw [if_pos hahead] at h
          have habove : above ≤ lines.length := by
            by_contra hnot
            rw [List.drop_eq_nil_of_le (by omega)] at hdrop
            cases hdrop
          refine ⟨lines.take above, line.take ahead, line.drop ahead, below, ?_, ?_, ?_⟩
          · rw [List.take_append_drop, ← hdrop, List.take_append_drop]
          · rw [List.length_take_of_le habove, List.length_take_of_le hahead]
          · rw [String.utf8Len_append]
            exact (Option.some.inj h).symm
        · rw [if_neg hahead] at h
          cases h
      · cases h
    · cases h
  · rintro ⟨above, front, back, below, hlines, rfl, rfl⟩
    simp [offset?, hlines]

/-- An offset is read off the lines at its place, and at no other. -/
theorem offset?_eq_some_iff_atOffset {text : String} {position : Position} {offset : Nat} :
    offset? text position = some offset ↔
      Boundary text offset ∧ atOffset text offset = position := by
  rw [offset?_eq_some_iff]
  constructor
  · rintro ⟨above, front, back, below, hlines, rfl, rfl⟩
    obtain ⟨hbefore, rest, htext⟩ := linesBefore_of_splitOn hlines
    refine ⟨boundary_iff.mpr ⟨_, rest, htext, rfl⟩, ?_⟩
    rw [atOffset_eq htext, hbefore.behind_eq]
  · rintro ⟨hboundary, rfl⟩
    obtain ⟨before, rest, htext, rfl⟩ := boundary_iff.mp hboundary
    obtain ⟨ended, line, hlines⟩ := exists_linesBefore before
    obtain ⟨back, below, hrest⟩ := List.exists_cons_of_ne_nil (List.splitOn_ne_nil '\n' rest)
    refine ⟨ended, line, back, below, ?_, ?_, ?_⟩
    · rw [htext, hlines.splitOn_eq, hrest]
      rfl
    · rw [atOffset_eq htext, hlines.behind_eq]
    · rw [← hlines.eq_append]

end Position

open Position (atOffset offset?)

/-- Lines and columns are as good as byte offsets, in a text of less than
    `2 ^ 32 - 1` bytes. Of two offsets between characters, the later one has the later
    place. From its place, such an offset is read off the lines of the text, and no
    other offset is read off from any place. Offsets beyond the text have the place of
    its end. -/
theorem places_faithful_to_offsets (text : String) (hsize : text.utf8ByteSize < 2 ^ 32 - 1) :
    (∀ offset later, Boundary text offset → Boundary text later → offset < later →
      (atOffset text offset).wrapped < (atOffset text later).wrapped) ∧
    (∀ position offset, offset? text position = some offset ↔
      Boundary text offset ∧ (atOffset text offset).wrapped = position) ∧
    ∀ offset, text.utf8ByteSize < offset →
      (atOffset text offset).wrapped = (atOffset text text.utf8ByteSize).wrapped := by
  simp only [Position.wrapped_atOffset hsize]
  refine ⟨?_, ?_, ?_⟩
  · intro offset later hoffset hlater hlt
    exact Position.atOffset_lt_atOffset hoffset hlater hlt
  · intro position offset
    exact Position.offset?_eq_some_iff_atOffset
  · intro offset hbeyond
    exact Position.atOffset_of_lt hbeyond

/-- The first line is a letter of two bytes, and so is the first letter of the
    second. The line feed is at the offset 2 and the last letter at the offset 5, each
    behind one letter of its line. -/
theorem two_byte_letters_around_line_feed :
    let text := "é\nöx"
    (text.utf8ByteSize < 2 ^ 32 - 1 ∧ Boundary text 2 ∧ Boundary text 5) ∧
      ((atOffset text 2).wrapped = ⟨1, 2⟩ ∧ (atOffset text 5).wrapped = ⟨2, 2⟩ ∧
        (⟨1, 2⟩ : Position) < ⟨2, 2⟩) ∧
      (offset? text ⟨2, 2⟩ = some 5 ∧ offset? text ⟨1, 3⟩ = none) ∧
      (atOffset text 99).wrapped = ⟨2, 3⟩ := by
  intro text
  have hsize : text.utf8ByteSize < 2 ^ 32 - 1 := by decide
  have htwo : Boundary text 2 := by decide
  have hfive : Boundary text 5 := by decide
  have hfeed : (atOffset text 2).wrapped = ⟨1, 2⟩ := by cbv
  have hletter : (atOffset text 5).wrapped = ⟨2, 2⟩ := by cbv
  have hend : (atOffset text text.utf8ByteSize).wrapped = ⟨2, 3⟩ := by cbv
  have hnone : offset? text ⟨1, 3⟩ = none := by cbv
  obtain ⟨horder, hread, hbeyond⟩ := places_faithful_to_offsets text hsize
  have hlt := horder 2 5 htwo hfive (by decide)
  rw [hfeed, hletter] at hlt
  have hoffset := (hread ⟨2, 2⟩ 5).mpr ⟨hfive, hletter⟩
  have hplace := (hbeyond 99 (by decide)).trans hend
  exact ⟨⟨hsize, htwo, hfive⟩, ⟨hfeed, hletter, hlt⟩, ⟨hoffset, hnone⟩, hplace⟩

end Equational
