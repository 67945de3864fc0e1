import Equational.Yaml.Scanner
import Mathlib

/-! # Documents of plain lines

    The simplest documents are made of lines, each with a name and a value that
    are both **words**, with a colon and a blank between them.

    A line is scanned in three steps. The name is a plain scalar that may turn
    out to be a key; the colon makes it one, by marks that are put before it; and
    the value is a plain scalar again, which ends at the start of the next line,
    since that is not indented. Behind each step the state of the scanner is
    written down (`atLine`, `behindName`, `behindColon`), so a line leads from one
    such state to the next (`Scanner.tokens?_line`). By induction the tokens of a
    document are those of its lines, in a mapping that the first one opens
    (`Token.ofText?_document`).
-/

namespace Equational.Yaml

/-! ## Words -/

/-- The characters of plain words: ASCII letters and digits, and `_`. -/
def isWordCharacter (c : Char) : Bool :=
  c.isAlphanum || c == '_'

/-- One such character or more. -/
def IsWord (word : List Char) : Prop :=
  word ≠ [] ∧ ∀ c ∈ word, isWordCharacter c

variable {c : Char} {word rest : List Char} {place : Place}

theorem IsWord.exists_cons (h : IsWord word) :
    ∃ c more, word = c :: more ∧ isWordCharacter c := by
  obtain ⟨hne, hword⟩ := h
  obtain ⟨c, more, rfl⟩ := List.exists_cons_of_ne_nil hne
  exact ⟨c, more, rfl, hword c List.mem_cons_self⟩

theorem toNat_lt_of_isWordCharacter (h : isWordCharacter c) : c.toNat < 123 := by
  have hchar : c.isAlphanum ∨ c = '_' := by simpa [isWordCharacter] using h
  rcases hchar with h | rfl
  · simp only [Char.isAlphanum, Char.isAlpha, Char.isUpper, Char.isLower, Char.isDigit,
      Bool.or_eq_true, Bool.and_eq_true, decide_eq_true_eq] at h
    rcases h with (⟨-, h⟩ | ⟨-, h⟩) | ⟨-, h⟩
    · exact Nat.lt_of_le_of_lt h (by decide)
    · exact Nat.lt_of_le_of_lt h (by decide)
    · exact Nat.lt_of_le_of_lt h (by decide)
  · decide

/-- What holds of all of them can be decided, as they are few. -/
theorem forall_isWordCharacter (test : Char → Bool)
    (h : ∀ n < 123, isWordCharacter (Char.ofNat n) → test (Char.ofNat n))
    (hc : isWordCharacter c) : test c := by
  have hdecided := h c.toNat (toNat_lt_of_isWordCharacter hc)
  rw [Char.ofNat_toNat] at hdecided
  exact hdecided hc

theorem beq_of_isWordCharacter (hc : isWordCharacter c) (mark : Char)
    (hmark : isWordCharacter mark = false) : (c == mark) = false := by
  rw [beq_eq_false_iff_ne]
  rintro rfl
  rw [hc] at hmark
  cases hmark

theorem isGap_of_isWordCharacter (hc : isWordCharacter c) : isGap c = false := by
  simpa using forall_isWordCharacter (fun c => !isGap c) (by decide) hc

theorem isBreak_of_isWordCharacter (hc : isWordCharacter c) : isBreak c = false := by
  simpa using forall_isWordCharacter (fun c => !isBreak c) (by decide) hc

theorem isFlowMark_of_isWordCharacter (hc : isWordCharacter c) : isFlowMark c = false := by
  simpa using forall_isWordCharacter (fun c => !isFlowMark c) (by decide) hc

theorem startsPlain_of_isWordCharacter (hc : isWordCharacter c) (inFlow : Bool) :
    startsPlain inFlow (c :: rest) = true := by
  have hmarks := forall_isWordCharacter (fun c => !(isGap c || isFlowMark c ||
    ['#', '&', '*', '!', '|', '>', '\'', '"', '%', '@', '\x60'].contains c)) (by decide) hc
  simp only [startsPlain, beq_of_isWordCharacter hc '-' rfl,
    beq_of_isWordCharacter hc '?' rfl, beq_of_isWordCharacter hc ':' rfl]
  exact hmarks

/-- A word stays on its line. -/
theorem place_behind_word (hword : ∀ c ∈ word, isWordCharacter c) :
    word.foldl Place.after place =
      ⟨place.index + word.length, place.line, place.column + word.length⟩ := by
  induction word generalizing place with
  | nil => rfl
  | cons c word ih =>
    rw [List.forall_mem_cons] at hword
    have hafter : place.after c = ⟨place.index + 1, place.line, place.column + 1⟩ := by
      rw [Place.after, isBreak_of_isWordCharacter hword.1]
      rfl
    rw [List.foldl_cons, ih hword.2, hafter]
    simp only [List.length_cons]
    congr 1 <;> omega

/-! ## Plain scalars -/

/-- The characters of a word are taken one by one. -/
theorem readPlain?_word (inFlow : Bool) (indent : Nat) (taken : List Char)
    (hword : ∀ c ∈ word, isWordCharacter c) :
    readPlain? inFlow indent taken Gap.none (word ++ rest) place =
      readPlain? inFlow indent (word.reverse ++ taken) Gap.none rest
        (word.foldl Place.after place) := by
  induction word generalizing taken place with
  | nil => rfl
  | cons c word ih =>
    rw [List.forall_mem_cons] at hword
    obtain ⟨hc, hword⟩ := hword
    have hstep : readPlain? inFlow indent taken Gap.none (c :: (word ++ rest)) place =
        readPlain? inFlow indent (c :: taken) Gap.none (word ++ rest) (place.after c) := by
      rw [readPlain?]
      simp [isGap_of_isWordCharacter hc, isFlowMark_of_isWordCharacter hc,
        beq_of_isWordCharacter hc ':' rfl, Gap.join, Gap.none]
    rw [List.cons_append, hstep, ih _ hword, List.foldl_cons, List.reverse_cons,
      List.append_assoc, List.singleton_append]

/-- A word ends at a colon with a blank behind it. -/
theorem readPlain?_colon (indent : Nat) (taken : List Char) :
    readPlain? false indent taken Gap.none (':' :: ' ' :: rest) place =
      some ⟨String.ofList taken.reverse, false, ⟨':' :: ' ' :: rest, place⟩⟩ := by
  rw [readPlain?]
  rfl

/-- The characters that are left when a line is read: none, or a word that starts
    the next line. -/
def StartsLine (rest : List Char) : Prop :=
  ∀ c ∈ rest.head?, isWordCharacter c

/-- A word at the end of a line ends there, since the next line is not indented. -/
theorem readPlain?_break (indent : Nat) (taken : List Char) (hrest : StartsLine rest) :
    readPlain? false (indent + 1) taken Gap.none ('\n' :: rest) place =
      some ⟨String.ofList taken.reverse, true, ⟨rest, place.after '\n'⟩⟩ := by
  have hbreak : readPlain? false (indent + 1) taken Gap.none ('\n' :: rest) place =
      readPlain? false (indent + 1) taken (.breaks (some '\n') []) rest (place.after '\n') := by
    rw [readPlain?]
    rfl
  rw [hbreak]
  cases rest with
  | nil =>
    rw [readPlain?]
    rfl
  | cons c rest =>
    have hc : isWordCharacter c := hrest c rfl
    rw [readPlain?]
    simp [isGap_of_isWordCharacter hc, Place.after, isBreak, Gap.none, PlainScalar.ofTaken,
      Gap.hasBreak]

namespace Scanner

/-! ## Scanning a line -/

/-- Goes on behind one token. -/
theorem tokens?_of_scanToken? {scanner atToken next : Scanner}
    (hspace : scanner.toToken? = some atToken) (hrest : atToken.cursor.rest ≠ [])
    (hscan : atToken.scanToken? = some next)
    (hless : next.cursor.rest.length < scanner.cursor.rest.length) :
    scanner.tokens? = next.tokens? := by
  rw [tokens?, hspace]
  simp only [List.isEmpty_eq_false_iff.mpr hrest, Bool.false_eq_true, if_false, hscan,
    if_pos hless]

theorem startsMark_of_beq {mark : Char} (h : (c == mark) = false) :
    startsMark mark (c :: rest) = false := by
  unfold startsMark
  split
  · rename_i heq
    cases heq
    rw [h]
    rfl
  · rfl

/-- A word is scanned as a plain scalar, wherever it stands. -/
theorem scanToken?_word {scanner : Scanner} (hrest : scanner.cursor.rest = c :: rest)
    (hc : isWordCharacter c) : scanner.scanToken? = scanner.startPlain? := by
  have hmark := beq_of_isWordCharacter hc
  have hdash : startsMark '-' (c :: rest) = false := startsMark_of_beq (hmark '-' rfl)
  have hdot : startsMark '.' (c :: rest) = false := startsMark_of_beq (hmark '.' rfl)
  simp [scanToken?, hrest, hmark '%' rfl, hmark '[' rfl, hmark '\x7b' rfl, hmark ']' rfl,
    hmark '\x7d' rfl, hmark ',' rfl, hmark '-' rfl, hmark '?' rfl, hmark ':' rfl, hmark '*' rfl,
    hmark '&' rfl, hmark '!' rfl, hmark '|' rfl, hmark '>' rfl, hmark '\'' rfl, hmark '"' rfl,
    hdash, hdot, startsPlain_of_isWordCharacter hc]

/-- A colon that ends a word makes a key of it. -/
theorem scanToken?_colon {scanner : Scanner} (hrest : scanner.cursor.rest = ':' :: rest)
    (hends : endsWord rest = true) : scanner.scanToken? = scanner.startValue? := by
  have hdash : startsMark '-' (':' :: rest) = false := startsMark_of_beq rfl
  have hdot : startsMark '.' (':' :: rest) = false := startsMark_of_beq rfl
  simp [scanToken?, hrest, hdash, hdot, hends]

/-- What follows a gap, and is no comment: there the next token starts. -/
def IsContent (c : Char) : Prop :=
  isGap c = false ∧ c ≠ '#' ∧ isByteOrderMark c = false

theorem isContent_of_isWordCharacter (hc : isWordCharacter c) : IsContent c := by
  have hmark := forall_isWordCharacter (fun c => !isByteOrderMark c) (by decide) hc
  exact ⟨isGap_of_isWordCharacter hc, by simpa using beq_of_isWordCharacter hc '#' rfl,
    by simpa using hmark⟩

/-- No space is passed over, no candidate is given up and no collection closed
    where a token stands that is indented enough. -/
theorem toToken?_of_isContent {scanner : Scanner} (hrest : scanner.cursor.rest = c :: rest)
    (hc : IsContent c) (houter : scanner.outer = [])
    (hrenew : Candidate.renew? scanner.cursor.place scanner.candidate = some scanner.candidate)
    (hblocks : ∀ column ∈ scanner.blocks, column ≤ scanner.column) :
    scanner.toToken? = some scanner := by
  obtain ⟨⟨characters, place⟩, tokens, candidate, outer, blocks, mayStart⟩ := scanner
  obtain ⟨hgap, hcomment, hmark⟩ := hc
  subst hrest houter
  simp only [isGap, isBlank, Bool.or_eq_false_iff] at hgap
  have hspace : Cursor.skipSpace false mayStart false (c :: rest) place =
      (mayStart, ⟨c :: rest, place⟩) := by
    simp [Cursor.skipSpace, hgap, hcomment, hmark]
  simp only [toToken?, inFlow, List.isEmpty_nil, Bool.not_true, hspace, renewCandidates?, hrenew]
  cases blocks with
  | nil => rfl
  | cons block blocks =>
    have hle : block ≤ place.column := hblocks block List.mem_cons_self
    have hopen : ¬ place.column < block := Nat.not_lt.mpr hle
    simp [closeBlocks, inFlow, column, hopen]

/-- The scanner before a line. All lines but the first are in a mapping. -/
def atLine (isOpen : Bool) (tokens : List Token) (characters : List Char) (place : Place) :
    Scanner :=
  ⟨⟨characters, place⟩, tokens, none, [], if isOpen then [0] else [], true⟩

/-- The scanner behind the name on a line, which is a key if a colon follows. -/
def behindName (isOpen : Bool) (tokens : List Token) (name : String) (start : Place)
    (characters : List Char) (place : Place) : Scanner :=
  ⟨⟨characters, place⟩, .scalar .plain name :: tokens, some ⟨start, tokens.length, isOpen⟩, [],
    if isOpen then [0] else [], false⟩

/-- The scanner behind the colon on a line. -/
def behindColon (tokens : List Token) (characters : List Char) (place : Place) : Scanner :=
  ⟨⟨characters, place⟩, tokens, none, [], [0], false⟩

/-- The name is a plain scalar, and may start a key. -/
theorem tokens?_name (isOpen : Bool) (tokens : List Token) (rest : List Char)
    (hword : IsWord word) (hcolumn : place.column = 0) :
    (atLine isOpen tokens (word ++ ':' :: ' ' :: rest) place).tokens? =
      (behindName isOpen tokens (String.ofList word) place (':' :: ' ' :: rest)
        (word.foldl Place.after place)).tokens? := by
  obtain ⟨c, more, hcons, hc⟩ := hword.exists_cons
  have hrest : word ++ ':' :: ' ' :: rest = c :: (more ++ ':' :: ' ' :: rest) := by
    rw [hcons, List.cons_append]
  have hspace : (atLine isOpen tokens (word ++ ':' :: ' ' :: rest) place).toToken? =
      some (atLine isOpen tokens (word ++ ':' :: ' ' :: rest) place) := by
    refine toToken?_of_isContent hrest (isContent_of_isWordCharacter hc) rfl rfl ?_
    intro column hopen
    cases isOpen <;> simp_all [atLine]
  have hread : ∀ indent, readPlain? false indent [] Gap.none (word ++ ':' :: ' ' :: rest) place =
      some ⟨String.ofList word, false,
        ⟨':' :: ' ' :: rest, word.foldl Place.after place⟩⟩ := by
    intro indent
    rw [readPlain?_word false indent [] hword.2, readPlain?_colon, List.append_nil,
      List.reverse_reverse]
  have hscan : (atLine isOpen tokens (word ++ ':' :: ' ' :: rest) place).scanToken? =
      some (behindName isOpen tokens (String.ofList word) place (':' :: ' ' :: rest)
        (word.foldl Place.after place)) := by
    rw [scanToken?_word hrest hc, startPlain?]
    -- the name has to be a key where the mapping is open at its column already
    cases isOpen <;>
      simp [markCandidate?, dropCandidate?, atLine, behindName, inFlow, least, add, column,
        hcolumn, hread]
  have hless : (':' :: ' ' :: rest).length < (word ++ ':' :: ' ' :: rest).length := by
    have hpos := List.length_pos_iff.mpr hword.1
    rw [List.length_append]
    omega
  exact tokens?_of_scanToken? hspace (by simp [atLine]) hscan hless

/-- The colon makes the name a key, and that of the first line opens the mapping. -/
theorem tokens?_colon (isOpen : Bool) (tokens : List Token) (name : String) (rest : List Char)
    {start : Place} (hcolumn : start.column = 0) (hline : place.line = start.line)
    (hindex : place.index ≤ start.index + 1024) :
    (behindName isOpen tokens name start (':' :: ' ' :: rest) place).tokens? =
      (behindColon (.value :: .scalar .plain name :: .key ::
        if isOpen then tokens else .blockMappingStart :: tokens) (' ' :: rest)
        (place.after ':')).tokens? := by
  have hspace : (behindName isOpen tokens name start (':' :: ' ' :: rest) place).toToken? =
      some (behindName isOpen tokens name start (':' :: ' ' :: rest) place) := by
    refine toToken?_of_isContent rfl ⟨rfl, by decide, rfl⟩ rfl ?_ ?_
    · have hfresh : Candidate.isStale ⟨start, tokens.length, isOpen⟩ place = false := by
        simp only [Candidate.isStale, Bool.or_eq_false_iff, decide_eq_false_iff_not]
        omega
      simp [behindName, Candidate.renew?, hfresh]
    · intro column hopen
      cases isOpen <;> simp_all [behindName]
  have hscan : (behindName isOpen tokens name start (':' :: ' ' :: rest) place).scanToken? =
      some (behindColon (.value :: .scalar .plain name :: .key ::
        if isOpen then tokens else .blockMappingStart :: tokens) (' ' :: rest)
        (place.after ':')) := by
    rw [scanToken?_colon rfl rfl, startValue?]
    cases isOpen <;>
      simp [behindName, behindColon, isDeeper, inFlow, least, hcolumn, insert, addMark, add,
        Cursor.drop]
  exact tokens?_of_scanToken? hspace (by simp [behindName]) hscan (Nat.lt_succ_self _)

theorem toToken?_blank (scanner : Scanner) (hrest : scanner.cursor.rest = ' ' :: rest) :
    scanner.toToken? =
      { scanner with cursor := ⟨rest, scanner.cursor.place.after ' '⟩ }.toToken? := by
  have hspace : ∀ inFlow mayStart, Cursor.skipSpace inFlow mayStart false (' ' :: rest)
      scanner.cursor.place =
      Cursor.skipSpace inFlow mayStart false rest (scanner.cursor.place.after ' ') := by
    intro inFlow mayStart
    simp [Cursor.skipSpace, isBreak]
  simp only [toToken?, hrest, hspace, inFlow]

/-- The value is a plain scalar, and the next line starts behind it. -/
theorem tokens?_value (tokens : List Token) (hword : IsWord word) (hrest : StartsLine rest) :
    (behindColon tokens (' ' :: (word ++ '\n' :: rest)) place).tokens? =
      (atLine true (.scalar .plain (String.ofList word) :: tokens) rest
        ((word.foldl Place.after (place.after ' ')).after '\n')).tokens? := by
  obtain ⟨c, more, hcons, hc⟩ := hword.exists_cons
  have hcharacters : word ++ '\n' :: rest = c :: (more ++ '\n' :: rest) := by
    rw [hcons, List.cons_append]
  have hspace : (behindColon tokens (' ' :: (word ++ '\n' :: rest)) place).toToken? =
      some (behindColon tokens (word ++ '\n' :: rest) (place.after ' ')) := by
    rw [toToken?_blank _ rfl]
    refine toToken?_of_isContent hcharacters (isContent_of_isWordCharacter hc) rfl rfl ?_
    intro column hopen
    simp_all [behindColon]
  have hread : readPlain? false 1 [] Gap.none (word ++ '\n' :: rest) (place.after ' ') =
      some ⟨String.ofList word, true,
        ⟨rest, (word.foldl Place.after (place.after ' ')).after '\n'⟩⟩ := by
    rw [readPlain?_word false 1 [] hword.2, readPlain?_break 0 _ hrest, List.append_nil,
      List.reverse_reverse]
  have hscan : (behindColon tokens (word ++ '\n' :: rest) (place.after ' ')).scanToken? =
      some (atLine true (.scalar .plain (String.ofList word) :: tokens) rest
        ((word.foldl Place.after (place.after ' ')).after '\n')) := by
    rw [scanToken?_word hcharacters hc, startPlain?]
    simp [markCandidate?, behindColon, atLine, inFlow, least, add, hread]
  have hless : rest.length < (' ' :: (word ++ '\n' :: rest)).length := by
    simp only [List.length_cons, List.length_append]
    omega
  exact tokens?_of_scanToken? hspace (by simp [behindColon]) hscan hless

end Scanner

/-! ## Lines -/

/-- A line of a document: a name and a value, both of which are words. The name is
    no longer than a key may be. -/
structure Line where
  name : String
  value : String
  name_isWord : IsWord name.toList
  value_isWord : IsWord value.toList
  name_length : name.length ≤ 1024

namespace Line

/-- The characters of a line up to its break. -/
def characters (line : Line) : List Char :=
  line.name.toList ++ ':' :: ' ' :: (line.value.toList ++ ['\n'])

/-- A line as it is written. -/
def text (line : Line) : String :=
  line.name ++ ": " ++ line.value ++ "\n"

theorem toList_text (line : Line) : line.text.toList = line.characters := by
  simp [text, characters]

/-- The text of lines. -/
def document (lines : List Line) : String :=
  String.join (lines.map text)

theorem toList_document (lines : List Line) :
    (document lines).toList = lines.flatMap characters := by
  simp only [document, String.toList_join, List.flatMap_map, toList_text]

/-- The tokens that a line is scanned as. -/
def tokens (line : Line) : List Token :=
  [.key, .scalar .plain line.name, .value, .scalar .plain line.value]

theorem startsLine_flatMap (lines : List Line) : StartsLine (lines.flatMap characters) := by
  cases lines with
  | nil => simp [StartsLine]
  | cons line lines =>
    obtain ⟨c, more, hcons, hc⟩ := line.name_isWord.exists_cons
    simpa [StartsLine, characters, hcons] using hc

end Line

namespace Scanner

/-- A line is scanned up to the start of the next one. -/
theorem tokens?_line (isOpen : Bool) (tokens : List Token) (line : Line)
    (hcolumn : place.column = 0) (hrest : StartsLine rest) :
    ∃ place' : Place, place'.column = 0 ∧
      (atLine isOpen tokens (line.characters ++ rest) place).tokens? =
        (atLine true (line.tokens.reverse ++
          if isOpen then tokens else .blockMappingStart :: tokens) rest place').tokens? := by
  have hcharacters : line.characters ++ rest =
      line.name.toList ++ ':' :: ' ' :: (line.value.toList ++ '\n' :: rest) := by
    simp [Line.characters]
  have hplace : line.name.toList.foldl Place.after place = _ :=
    place_behind_word line.name_isWord.2
  have hline : (line.name.toList.foldl Place.after place).line = place.line := by rw [hplace]
  have hindex : (line.name.toList.foldl Place.after place).index ≤ place.index + 1024 := by
    have hlength := line.name_length
    rw [hplace, String.length_toList]
    exact Nat.add_le_add_left hlength place.index
  rw [hcharacters, tokens?_name isOpen tokens _ line.name_isWord hcolumn, String.ofList_toList,
    tokens?_colon isOpen tokens line.name _ hcolumn hline hindex,
    tokens?_value _ line.value_isWord hrest, String.ofList_toList]
  exact ⟨_, rfl, rfl⟩

/-- A mapping is scanned line by line, and closed at its end. -/
theorem tokens?_lines (tokens : List Token) (lines : List Line) (hcolumn : place.column = 0) :
    (atLine true tokens (lines.flatMap Line.characters) place).tokens? =
      some (tokens.reverse ++ lines.flatMap Line.tokens ++ [.blockEnd]) := by
  induction lines generalizing tokens place with
  | nil =>
    have hspace : (atLine true tokens [] place).toToken? = some (atLine true tokens [] place) := by
      simp [toToken?, atLine, Cursor.skipSpace, renewCandidates?, Candidate.renew?, closeBlocks,
        inFlow, column, hcolumn]
    rw [List.flatMap_nil, tokens?, hspace]
    simp [atLine, closeBlocks, inFlow, dropCandidate?]
  | cons line lines ih =>
    rw [List.flatMap_cons]
    obtain ⟨place', hcolumn', hline⟩ :=
      tokens?_line true tokens line hcolumn (Line.startsLine_flatMap lines)
    rw [hline, ih _ hcolumn']
    simp

end Scanner

/-! ## Documents of lines -/

theorem unifyBreaks_eq_self {characters : List Char}
    (h : ∀ c ∈ characters, c ≠ '\r' ∧ c.toNat ≠ 0x85) : unifyBreaks characters = characters := by
  induction characters with
  | nil => rfl
  | cons c characters ih =>
    rw [List.forall_mem_cons] at h
    obtain ⟨⟨hreturn, hnext⟩, h⟩ := h
    rw [unifyBreaks.eq_2 c characters fun _ heq _ => hreturn heq, ih h]
    simp [hreturn, hnext]

/-- Lines hold no character that a document may not hold, and none that stands for
    a line break but is written otherwise. -/
theorem Line.isAllowed_of_mem {line : Line} {c : Char} (h : c ∈ line.characters) :
    isAllowed c ∧ c ≠ '\r' ∧ c.toNat ≠ 0x85 := by
  have hword : isWordCharacter c → isAllowed c ∧ c ≠ '\r' ∧ c.toNat ≠ 0x85 := by
    intro hc
    have hall := forall_isWordCharacter
      (fun c => isAllowed c && c != '\r' && c.toNat != 0x85) (by decide) hc
    simpa [and_assoc] using hall
  rw [characters, List.mem_append, List.mem_cons, List.mem_cons, List.mem_append,
    List.mem_singleton] at h
  rcases h with h | rfl | rfl | h | rfl
  · exact hword (line.name_isWord.2 c h)
  · decide
  · decide
  · exact hword (line.value_isWord.2 c h)
  · decide

/-- A document of lines, at least one, is scanned as a mapping. -/
theorem Token.ofText?_document {lines : List Line} (hne : lines ≠ []) :
    Token.ofText? (Line.document lines) =
      some (.blockMappingStart :: (lines.flatMap Line.tokens ++ [.blockEnd])) := by
  have hcharacters : ∀ c ∈ lines.flatMap Line.characters,
      isAllowed c ∧ c ≠ '\r' ∧ c.toNat ≠ 0x85 := by
    intro c hc
    obtain ⟨line, _, hline⟩ := List.mem_flatMap.mp hc
    exact Line.isAllowed_of_mem hline
  have hallowed : (lines.flatMap Line.characters).all isAllowed = true :=
    List.all_eq_true.mpr fun c hc => (hcharacters c hc).1
  rw [ofText?, Line.toList_document, if_pos hallowed,
    unifyBreaks_eq_self fun c hc => (hcharacters c hc).2]
  obtain ⟨line, lines, rfl⟩ := List.exists_cons_of_ne_nil hne
  -- the first line opens the mapping
  have hstart : Place.start.column = 0 := rfl
  obtain ⟨place', hcolumn', hline⟩ :=
    Scanner.tokens?_line false [] line hstart (Line.startsLine_flatMap lines)
  have hlines := hline.trans (Scanner.tokens?_lines _ lines hcolumn')
  simpa [Scanner.ofCharacters, Scanner.atLine] using hlines

end Equational.Yaml
