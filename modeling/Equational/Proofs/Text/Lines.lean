import Equational.Text.Region
import Mathlib

/-! # Places in lines

    A place of a text is found by walking up to it, character by character. This
    is the place that one finds in the lines of the text:

    * its line is the one behind the lines that have ended before it, and
    * its column is the one behind the characters of its line before it.

    `LinesBefore` takes what stands before the place apart in this way, along
    the walk. The lines of the whole text are those of `List.splitOn`, and
    `withLineFeeds` puts lines together again.
-/

namespace Equational

open String (utf8Len)

/-! ## Walking up to a place -/

namespace Position

/-- The place behind some characters that a text begins with. -/
def behind (before : List Char) : Position :=
  before.foldl after first

theorem behind_concat (before : List Char) (c : Char) :
    behind (before ++ [c]) = (behind before).after c := by
  rw [behind, List.foldl_append]
  rfl

theorem walk_append (position : Position) (before rest : List Char) :
    position.walk (before ++ rest) (utf8Len before) = before.foldl after position := by
  induction before generalizing position with
  | nil => exact walk_zero position rest
  | cons c before ih =>
    have hpos := c.utf8Size_pos
    rw [List.cons_append, walk, String.utf8Len_cons, if_neg (by omega), if_pos (by omega),
      Nat.add_sub_cancel]
    exact ih (position.after c)

/-- An offset between two characters is the place behind those before it. -/
theorem atOffset_eq {text : String} {before rest : List Char}
    (htext : text.toList = before ++ rest) :
    atOffset text (utf8Len before) = behind before := by
  rw [atOffset, htext]
  exact walk_append first before rest

end Position

/-! ## Lines -/

/-- The characters of some lines, each with its line feed. -/
def withLineFeeds (lines : List (List Char)) : List Char :=
  lines.flatMap (· ++ ['\n'])

theorem withLineFeeds_append (lines others : List (List Char)) :
    withLineFeeds (lines ++ others) = withLineFeeds lines ++ withLineFeeds others :=
  List.flatMap_append

theorem withLineFeeds_singleton (line : List Char) : withLineFeeds [line] = line ++ ['\n'] :=
  List.flatMap_singleton ..

/-- `LinesBefore before ended line`: the characters before some place are those of
    the lines that have ended, each with its line feed, and of the line that the
    place is in. -/
inductive LinesBefore : List Char → List (List Char) → List Char → Prop where
  | start : LinesBefore [] [] []
  | character {before : List Char} {ended : List (List Char)} {line : List Char} {c : Char} :
      c ≠ '\n' → LinesBefore before ended line → LinesBefore (before ++ [c]) ended (line ++ [c])
  | feed {before : List Char} {ended : List (List Char)} {line : List Char} :
      LinesBefore before ended line → LinesBefore (before ++ ['\n']) (ended ++ [line]) []

theorem exists_linesBefore (before : List Char) : ∃ ended line, LinesBefore before ended line := by
  induction before using List.reverseRecOn with
  | nil => exact ⟨[], [], .start⟩
  | append_singleton before c ih =>
    obtain ⟨ended, line, hlines⟩ := ih
    by_cases hc : c = '\n'
    · subst hc
      exact ⟨ended ++ [line], [], .feed hlines⟩
    · exact ⟨ended, line ++ [c], .character hc hlines⟩

namespace LinesBefore

variable {before : List Char} {ended : List (List Char)} {line : List Char}

/-- Both counts start at 1. -/
theorem behind_eq (h : LinesBefore before ended line) :
    Position.behind before = ⟨ended.length + 1, line.length + 1⟩ := by
  induction h with
  | start => rfl
  | character hc _ ih =>
    rw [Position.behind_concat, ih, Position.after, if_neg hc, List.length_append,
      List.length_singleton]
  | feed _ ih =>
    rw [Position.behind_concat, ih, Position.after, if_pos rfl, List.length_append,
      List.length_singleton, List.length_nil]

/-- Characters that are not a line feed stay in the line. -/
theorem append (h : LinesBefore before ended line) {more : List Char} (hmore : '\n' ∉ more) :
    LinesBefore (before ++ more) ended (line ++ more) := by
  induction more using List.reverseRecOn with
  | nil => simpa using h
  | append_singleton more c ih =>
    obtain ⟨hmore, hc⟩ := not_or.mp (mt List.mem_append.mpr hmore)
    rw [← List.append_assoc, ← List.append_assoc]
    exact .character (fun heq => hc (by simp [heq])) (ih hmore)

/-- The lines of a whole text begin with those before the place. -/
theorem splitOn_eq (h : LinesBefore before ended line) (rest : List Char) :
    (before ++ rest).splitOn '\n' = ended ++ (rest.splitOn '\n').modifyHead (line ++ ·) := by
  induction h generalizing rest with
  | start => cases hrest : rest.splitOn '\n' <;> simp [hrest]
  | character hc _ ih =>
    rw [List.append_assoc, ih, List.singleton_append, List.splitOn_cons_eq_if_modifyHead,
      if_neg (by simpa using hc), List.modifyHead_modifyHead]
    simp [Function.comp_def]
  | feed _ ih =>
    rw [List.append_assoc, ih, List.singleton_append, List.splitOn_cons_eq_if_modifyHead,
      if_pos (by simp)]
    cases hrest : rest.splitOn '\n' <;> simp

/-- There are not more lines and characters than bytes. -/
theorem length_le (h : LinesBefore before ended line) :
    ended.length + line.length ≤ utf8Len before := by
  induction h with
  | start => exact Nat.le_refl 0
  | @character _ _ _ c _ _ ih =>
    have hpos := c.utf8Size_pos
    simp only [List.length_append, List.length_singleton, String.utf8Len_append,
      String.utf8Len_cons, String.utf8Len_nil]
    omega
  | feed _ ih =>
    have hpos := '\n'.utf8Size_pos
    simp only [List.length_append, List.length_singleton, List.length_nil,
      String.utf8Len_append, String.utf8Len_cons, String.utf8Len_nil]
    omega

/-- The lines of what stands before the place, if nothing is behind it. -/
theorem splitOn_self (h : LinesBefore before ended line) :
    before.splitOn '\n' = ended ++ [line] := by
  have hlines := h.splitOn_eq []
  simpa using hlines

theorem newline_notMem (h : LinesBefore before ended line) :
    (∀ above ∈ ended, '\n' ∉ above) ∧ '\n' ∉ line := by
  induction h with
  | start => exact ⟨nofun, List.not_mem_nil⟩
  | character hc _ ih =>
    refine ⟨ih.1, fun hmem => ?_⟩
    rcases List.mem_append.mp hmem with hline | hlast
    · exact ih.2 hline
    · exact hc (List.mem_singleton.mp hlast).symm
  | feed _ ih =>
    refine ⟨fun above hmem => ?_, List.not_mem_nil⟩
    rcases List.mem_append.mp hmem with habove | hlast
    · exact ih.1 above habove
    · exact List.mem_singleton.mp hlast ▸ ih.2

/-- The lines that have ended and the one behind them are what the characters are
    put together from. -/
theorem eq_append (h : LinesBefore before ended line) : before = withLineFeeds ended ++ line := by
  induction h with
  | start => rfl
  | character _ _ ih => rw [ih, List.append_assoc]
  | feed _ ih =>
    rw [ih, withLineFeeds_append, withLineFeeds_singleton, List.append_assoc, List.append_nil]

/-- Lines that are put together are before the place behind them. -/
theorem of_lines (hended : ∀ above ∈ ended, '\n' ∉ above) (hline : '\n' ∉ line) :
    LinesBefore (withLineFeeds ended ++ line) ended line := by
  have hfeeds : LinesBefore (withLineFeeds ended) ended [] := by
    clear hline
    induction ended using List.reverseRecOn with
    | nil => exact .start
    | append_singleton ended last ih =>
      have hlast : '\n' ∉ last := hended last (by simp)
      have habove := ih fun above hmem => hended above (List.mem_append_left _ hmem)
      rw [withLineFeeds_append, withLineFeeds_singleton, ← List.append_assoc]
      exact (habove.append hlast).feed
  exact hfeeds.append hline

end LinesBefore

theorem newline_notMem_of_mem_splitOn {characters line : List Char}
    (h : line ∈ characters.splitOn '\n') : '\n' ∉ line := by
  obtain ⟨ended, last, hlines⟩ := exists_linesBefore characters
  obtain ⟨hended, hlast⟩ := hlines.newline_notMem
  rw [hlines.splitOn_self] at h
  rcases List.mem_append.mp h with hmem | hmem
  · exact hended line hmem
  · exact List.mem_singleton.mp hmem ▸ hlast

/-- The lines of a text are put together to the text, but the last one has been
    given a line feed too. -/
theorem withLineFeeds_splitOn (characters : List Char) :
    withLineFeeds (characters.splitOn '\n') = characters ++ ['\n'] := by
  obtain ⟨ended, line, hlines⟩ := exists_linesBefore characters
  rw [hlines.splitOn_self, withLineFeeds_append, withLineFeeds_singleton, ← List.append_assoc,
    ← hlines.eq_append]

/-- Some lines of a text, and some characters of the line below them, stand before a
    place of the text. -/
theorem linesBefore_of_splitOn {characters front back : List Char}
    {ended later : List (List Char)}
    (h : characters.splitOn '\n' = ended ++ (front ++ back) :: later) :
    LinesBefore (withLineFeeds ended ++ front) ended front ∧
      ∃ rest, characters = withLineFeeds ended ++ front ++ rest := by
  constructor
  · have hnone : ∀ line ∈ ended ++ (front ++ back) :: later, '\n' ∉ line :=
      fun line hmem => newline_notMem_of_mem_splitOn (h ▸ hmem)
    have hline : '\n' ∉ front ++ back := hnone _ (by simp)
    exact .of_lines (fun above hmem => hnone above (List.mem_append_left _ hmem))
      fun hmem => hline (List.mem_append_left _ hmem)
  · -- the line feed that the last line has been given comes off the end again
    have hjoined : characters ++ ['\n'] =
        withLineFeeds ended ++ front ++ (back ++ '\n' :: withLineFeeds later) := by
      rw [← withLineFeeds_splitOn, h]
      simp [withLineFeeds]
    refine ⟨(back ++ '\n' :: withLineFeeds later).dropLast, ?_⟩
    rw [← List.dropLast_append_of_ne_nil (by simp), ← hjoined, List.dropLast_concat]

/-! ## Regions -/

namespace Region

/-- The region holds these characters: they stand in one of the lines, from the
    column where the region starts up to the one where it stops. Lines and
    columns are counted from 1. -/
def Holds (text : String) (region : Region) (characters : List Char) : Prop :=
  ∃ (earlier : List (List Char)) (front back : List Char) (later : List (List Char)),
    text.toList.splitOn '\n' = earlier ++ (front ++ characters ++ back) :: later ∧
    region.start = ⟨earlier.length + 1, front.length + 1⟩ ∧
    region.stop = ⟨earlier.length + 1, front.length + characters.length + 1⟩

/-- No line or column of the region is above the limit. -/
def Within (region : Region) (limit : Nat) : Prop :=
  region.start.line ≤ limit ∧ region.start.column ≤ limit ∧
    region.stop.line ≤ limit ∧ region.stop.column ≤ limit

section Located

variable {text : String} {before characters rest : List Char}

theorem locate_eq (htext : text.toList = before ++ characters ++ rest) :
    locate text ⟨utf8Len before, utf8Len before + utf8Len characters⟩ =
      ⟨.behind before, .behind (before ++ characters)⟩ := by
  rw [locate, ← String.utf8Len_append, Position.atOffset_eq htext,
    Position.atOffset_eq (htext.trans (List.append_assoc ..))]

/-- A part of a line is held by the region of its span. -/
theorem holds_locate (htext : text.toList = before ++ characters ++ rest)
    (hline : '\n' ∉ characters) :
    Holds text (locate text ⟨utf8Len before, utf8Len before + utf8Len characters⟩) characters := by
  obtain ⟨ended, line, hlines⟩ := exists_linesBefore before
  have hbehind := hlines.append hline
  obtain ⟨last, later, hrest⟩ := List.exists_cons_of_ne_nil (List.splitOn_ne_nil '\n' rest)
  rw [locate_eq htext]
  refine ⟨ended, line, last, later, ?_, hlines.behind_eq, ?_⟩
  · rw [htext, hbehind.splitOn_eq, hrest]
    rfl
  · rw [hbehind.behind_eq, List.length_append]

/-- There are not more lines or columns than bytes before the end. -/
theorem within_locate (htext : text.toList = before ++ characters ++ rest) :
    Within (locate text ⟨utf8Len before, utf8Len before + utf8Len characters⟩)
      (text.utf8ByteSize + 1) := by
  obtain ⟨ended, line, hstart⟩ := exists_linesBefore before
  obtain ⟨ended', line', hstop⟩ := exists_linesBefore (before ++ characters)
  have hstart_le := hstart.length_le
  have hstop_le := hstop.length_le
  have hsize : text.utf8ByteSize = utf8Len before + utf8Len characters + utf8Len rest := by
    rw [← String.utf8Len_toList, htext, String.utf8Len_append, String.utf8Len_append]
  rw [String.utf8Len_append] at hstop_le
  rw [locate_eq htext, hstart.behind_eq, hstop.behind_eq]
  simp only [Within]
  omega

end Located

end Region

end Equational
