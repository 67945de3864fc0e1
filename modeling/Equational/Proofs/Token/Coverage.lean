import Equational.Proofs.Token.Spelling
import Mathlib

/-! # What scanning makes of a text

    Behind a malformed word the scanner goes on as it does behind a token, so a
    text has **results**, tokens and malformed words, up to its end. They leave
    nothing of the text out but its blanks, and tell what they were read from.

    The proof lays a text out (`Laid`): behind the characters that were read
    before comes the end, a blank, or a part that the next result is read from.
    The parts are those of the division of the text. A part that is a word is as
    long as it can be, since what precedes it ends another part.
-/

namespace Equational

open String (utf8Len)

/-! ## Words as maximal runs -/

/-- A character that a word may hold where it stands: it is neither a blank nor
    a mark, and not a part of an arrow. -/
structure Free (before : List Char) (c : Char) (after : List Char) : Prop where
  notBlank : isBlank c = false
  notMark : isMark c = false
  notDash : ¬ (c = '-' ∧ after.head? = some '>')
  notTip : ¬ (c = '>' ∧ before.getLast? = some '-')

/-- Free characters, of some at least, between two places where there is no other
    one to be taken with them. -/
structure MaximalRun (before run after : List Char) : Prop where
  nonempty : run ≠ []
  free : ∀ front c back, run = front ++ c :: back → Free (before ++ front) c (back ++ after)
  first : ∀ front c, before = front ++ [c] → ¬ Free front c (run ++ after)
  last : ∀ c back, after = c :: back → ¬ Free (before ++ run) c back

/-- A word may begin behind these characters: they end in a blank or a symbol, if
    there are any. -/
def BeginsWord (before : List Char) : Prop :=
  ∀ front c, before = front ++ [c] →
    isBlank c = true ∨ isMark c = true ∨ (c = '>' ∧ front.getLast? = some '-')

theorem beginsWord_nil : BeginsWord [] := by
  intro front c h
  simp at h

theorem beginsWord_blank {c : Char} (h : isBlank c = true) (before : List Char) :
    BeginsWord (before ++ [c]) := by
  intro front d heq
  obtain ⟨-, hcd⟩ := List.append_inj' heq rfl
  obtain rfl : c = d := by simpa using hcd
  exact .inl h

theorem beginsWord_symbol (before : List Char) (symbol : Symbol) :
    BeginsWord (before ++ symbol.text.toList) := by
  intro front c heq
  cases symbol with
  | arrow =>
    have hsplit : (before ++ ['-']) ++ ['>'] = front ++ [c] := by simpa [Symbol.text] using heq
    obtain ⟨rfl, hc⟩ := List.append_inj' hsplit rfl
    exact .inr (.inr ⟨by simpa using hc.symm, by simp⟩)
  | _ =>
    obtain ⟨-, hc⟩ := List.append_inj' heq rfl
    obtain rfl : _ = c := by simpa [Symbol.text] using hc
    exact .inr (.inl rfl)

/-- No dash is left behind for the `>` of a word to make an arrow with. -/
theorem BeginsWord.getLast?_ne {before : List Char} (h : BeginsWord before) :
    before.getLast? ≠ some '-' := by
  intro hlast
  obtain ⟨front, hfront⟩ := List.getLast?_eq_some_iff.mp hlast
  have hcases := h front '-' hfront
  simp [isBlank, isMark] at hcases

/-- In a word that ends where a word ends and begins where one may begin, every
    character is free. -/
theorem IsWord.free {word before after : List Char} (hword : IsWord word)
    (hbefore : BeginsWord before) (hafter : endsWord after = true) {front back : List Char}
    {c : Char} (h : word = front ++ c :: back) : Free (before ++ front) c (back ++ after) := by
  obtain ⟨hnotBlank, hnotMark⟩ := hword.plain c (h ▸ List.mem_append_right _ List.mem_cons_self)
  obtain ⟨-, hback, hfront⟩ := List.isChain_append.mp (h ▸ hword.noArrow)
  refine ⟨hnotBlank, hnotMark, ?_, ?_⟩
  · -- the `>` would be in the word, or the first character behind it
    intro h
    obtain ⟨rfl, hhead⟩ := h
    cases back with
    | nil => exact head?_ne_of_endsWord hafter hhead
    | cons d back =>
      obtain rfl : d = '>' := by simpa using hhead
      exact (List.isChain_cons_cons.mp hback).1 ⟨rfl, rfl⟩
  · -- the `-` would be in the word, or the last character before it
    intro h
    obtain ⟨rfl, hlast⟩ := h
    rcases List.eq_nil_or_concat front with rfl | ⟨front, d, rfl⟩
    · rw [List.append_nil] at hlast
      exact hbefore.getLast?_ne hlast
    · obtain rfl : d = '-' := by simpa using hlast
      exact hfront '-' (by simp) '>' rfl ⟨rfl, rfl⟩

theorem IsWord.maximalRun {word before after : List Char} (hword : IsWord word)
    (hbefore : BeginsWord before) (hafter : endsWord after = true) :
    MaximalRun before word after := by
  refine ⟨hword.nonempty, fun front c back h => hword.free hbefore hafter h, ?_, ?_⟩
  · intro front c h hfree
    rcases hbefore front c h with hblank | hmark | htip
    · simp [hfree.notBlank] at hblank
    · simp [hfree.notMark] at hmark
    · exact hfree.notTip htip
  · rintro c back rfl hfree
    rcases (endsWord_cons c back).mp hafter with hblank | hmark | hdash
    · simp [hfree.notBlank] at hblank
    · simp [hfree.notMark] at hmark
    · exact hfree.notDash hdash

/-- A symbol is no run of free characters. -/
theorem Symbol.not_maximalRun (symbol : Symbol) (before after : List Char) :
    ¬ MaximalRun before symbol.text.toList after := by
  intro h
  cases symbol with
  | arrow => exact (h.free [] '-' ['>'] rfl).notDash ⟨rfl, rfl⟩
  | _ => exact absurd (h.free [] _ [] rfl).notMark (by decide)

/-- A symbol holds no blank. -/
theorem Symbol.isBlank_eq_false (symbol : Symbol) {c : Char} (h : c ∈ symbol.text.toList) :
    isBlank c = false := by
  cases symbol with
  | arrow =>
    have hcases : c = '-' ∨ c = '>' := by simpa [Symbol.text] using h
    rcases hcases with rfl | rfl <;> rfl
  | _ =>
    obtain rfl : c = _ := by simpa [Symbol.text] using h
    rfl

/-! ## Malformed words -/

/-- `Malformed word span error`: the word is none of the lexemes, and this is what
    is wrong with it. -/
inductive Malformed (word : List Char) (span : Span) : LexicalError → Prop where
  | tooManyQualifiers : word.getLast? ≠ some ':' → 2 ≤ word.count ':' →
      Malformed word span (.tooManyQualifiers (String.ofList word) span)
  | emptyQualifier : word.getLast? ≠ some ':' → word.count ':' = 1 → word.head? = some ':' →
      Malformed word span (.emptyQualifier (String.ofList word) span)

theorem Lexeme.ofWord_eq_error_iff {word : List Char} {span : Span} {error : LexicalError} :
    ofWord word span = .error error ↔ Malformed word span error := by
  by_cases hlast : word.getLast? = some ':'
  · rw [ofWord_keyword hlast]
    constructor
    · intro h
      cases h
    · rintro (⟨hne, -⟩ | ⟨hne, -⟩) <;> contradiction
  · rcases dropWhile_colon_cases word with ⟨hcolon, -⟩ | ⟨name, -, happend, hsort⟩
    · rw [ofWord_identifier hcolon]
      have hcount : word.count ':' = 0 := List.count_eq_zero.mpr hcolon
      constructor
      · intro h
        cases h
      · rintro (⟨-, htwo⟩ | ⟨-, hone, -⟩) <;> omega
    · generalize word.takeWhile (· != ':') = sort at happend hsort
      subst happend
      -- the colons are the first one and those of the name
      have hcount : (sort ++ ':' :: name).count ':' = name.count ':' + 1 := by
        rw [List.count_append, List.count_eq_zero.mpr hsort, List.count_cons_self, Nat.zero_add]
      have hhead : (sort ++ ':' :: name).head? = some ':' ↔ sort = [] := by
        cases sort with
        | nil => simp
        | cons c sort => simpa using fun h : c = ':' => hsort (h ▸ List.mem_cons_self)
      have hmem : ':' ∈ name ↔ 0 < name.count ':' := List.count_pos_iff.symm
      rw [ofWord_qualified hsort hlast]
      constructor
      · intro h
        split at h
        · rename_i hname
          cases h
          exact .tooManyQualifiers hlast (by rw [hcount]; have := hmem.mp hname; omega)
        · rename_i hname
          split at h
          · rename_i hempty
            cases h
            refine .emptyQualifier hlast ?_ (hhead.mpr hempty)
            rw [hcount, List.count_eq_zero.mpr hname]
          · simp at h
      · rintro (⟨-, htwo⟩ | ⟨-, hone, hfirst⟩)
        · rw [if_pos (hmem.mpr (by omega))]
        · rw [if_neg (mt hmem.mp (by omega)), if_pos (hhead.mp hfirst)]

/-! ## Results -/

/-- The word that is malformed. -/
def LexicalError.word : LexicalError → String
  | .tooManyQualifiers word _ => word
  | .emptyQualifier word _ => word

theorem Malformed.word_eq {word : List Char} {span : Span} {error : LexicalError}
    (h : Malformed word span error) : error.word = String.ofList word := by
  cases h <;> rfl

theorem Malformed.span_eq {word : List Char} {span : Span} {error : LexicalError}
    (h : Malformed word span error) : error.span = span := by
  cases h <;> rfl

namespace Token

/-- Where a token or a malformed word stands. -/
def resultSpan : Except LexicalError Token → Span
  | .ok token => token.span
  | .error error => error.span

/-- The text of a token or a malformed word. -/
def resultText : Except LexicalError Token → String
  | .ok token => token.text
  | .error error => error.word

/-- A byte of the text is one of those that the result was read from. -/
def Covers (byte : Nat) (result : Except LexicalError Token) : Prop :=
  (resultSpan result).start ≤ byte ∧ byte < (resultSpan result).stop

/-- The result is what the characters `part` give between `before` and `after`. -/
structure ReadFrom (result : Except LexicalError Token) (before part after : List Char) :
    Prop where
  nonempty : part ≠ []
  span : resultSpan result = ⟨utf8Len before, utf8Len before + utf8Len part⟩
  text : resultText result = String.ofList part
  kind : (∃ symbol span, result = .ok ⟨.symbol symbol, span⟩) ∨ MaximalRun before part after
  error : ∀ error, result = .error error ↔
    MaximalRun before part after ∧ Malformed part (resultSpan result) error

theorem readFrom_symbol (symbol : Symbol) (before after : List Char) :
    ReadFrom (.ok ⟨.symbol symbol, ⟨utf8Len before, utf8Len before + symbol.text.utf8ByteSize⟩⟩)
      before symbol.text.toList after where
  nonempty := by cases symbol <;> simp [Symbol.text]
  span := by simp [resultSpan]
  text := by simp [resultText, Token.text, Lexeme.text]
  kind := .inl ⟨symbol, _, rfl⟩
  error := by simp [symbol.not_maximalRun]

theorem readFrom_word {word before after : List Char} (hword : IsWord word)
    (hbefore : BeginsWord before) (hafter : endsWord after = true) {span : Span}
    (hspan : span = ⟨utf8Len before, utf8Len before + utf8Len word⟩) :
    ReadFrom ((Lexeme.ofWord word span).map fun lexeme => ⟨lexeme, span⟩) before word after := by
  have hrun := hword.maximalRun hbefore hafter
  cases hof : Lexeme.ofWord word span with
  | error error =>
    have hmalformed := Lexeme.ofWord_eq_error_iff.mp hof
    refine ⟨hword.nonempty, hmalformed.span_eq.trans hspan, hmalformed.word_eq, .inr hrun, ?_⟩
    intro other
    have hother : Malformed word error.span other ↔ error = other := by
      rw [hmalformed.span_eq, ← Lexeme.ofWord_eq_error_iff, hof, Except.error.injEq]
    simp only [Except.map, Except.error.injEq, resultSpan, hother, hrun, true_and]
  | ok lexeme =>
    obtain ⟨-, -, htext⟩ := (Lexeme.ofWord_eq_ok_iff hword span).mp hof
    refine ⟨hword.nonempty, hspan, ?_, .inr hrun, ?_⟩
    · simp [Except.map, resultText, Token.text, ← htext]
    · intro error
      have hnot : ¬ Malformed word span error := by
        rw [← Lexeme.ofWord_eq_error_iff, hof]
        simp
      simp [Except.map, resultSpan, hnot]

/-- Nothing is read from a blank. -/
theorem ReadFrom.isBlank_eq_false {result : Except LexicalError Token}
    {before part after : List Char} (h : ReadFrom result before part after) {front back : List Char}
    {c : Char} (hpart : part = front ++ c :: back) : isBlank c = false := by
  rcases h.kind with ⟨symbol, span, rfl⟩ | hrun
  · have htext : symbol.text = String.ofList part := h.text
    exact symbol.isBlank_eq_false (by simp [htext, hpart])
  · exact (hrun.free front c back hpart).notBlank

/-! ## The layout of a text -/

/-- `Laid before rest results`: behind the characters `before`, the text `rest`
    consists of blanks and of the parts that the results are read from. -/
inductive Laid : List Char → List Char → List (Except LexicalError Token) → Prop where
  | nil {before : List Char} : Laid before [] []
  | blank {before rest : List Char} {c : Char} {results : List (Except LexicalError Token)} :
      isBlank c = true → Laid (before ++ [c]) rest results → Laid before (c :: rest) results
  | part {before part rest : List Char} {result : Except LexicalError Token}
      {results : List (Except LexicalError Token)} :
      ReadFrom result before part rest → Laid (before ++ part) rest results →
      Laid before (part ++ rest) (result :: results)

/-- A character of two texts in a row is in the second one or in the first. -/
theorem part_or_rest {part rest front back : List Char} {c : Char}
    (h : part ++ rest = front ++ c :: back) :
    (∃ more, front = part ++ more ∧ rest = more ++ c :: back) ∨
      ∃ more, part = front ++ c :: more := by
  rcases List.append_eq_append_iff.mp h with ⟨more, hfront, hrest⟩ | ⟨more, hpart, hback⟩
  · exact .inl ⟨more, hfront, hrest⟩
  · cases more with
    | nil => exact .inl ⟨[], by simpa using hpart.symm, hback.symm⟩
    | cons d more =>
      obtain ⟨rfl, -⟩ := List.cons.inj hback
      exact .inr ⟨more, hpart⟩

namespace Laid

variable {before rest : List Char} {results : List (Except LexicalError Token)}

/-- Each result is read from a part of the text. -/
theorem readFrom (h : Laid before rest results) {result : Except LexicalError Token}
    (hresult : result ∈ results) :
    ∃ front part back, before ++ rest = front ++ part ++ back ∧
      ReadFrom result front part back := by
  induction h with
  | nil => simp at hresult
  | blank _ _ ih => simpa using ih hresult
  | @part before part rest _ _ hread _ ih =>
    rcases List.mem_cons.mp hresult with rfl | hresult
    · exact ⟨before, part, rest, (List.append_assoc ..).symm, hread⟩
    · simpa using ih hresult

/-- No result starts in what was read before. -/
theorem start_le (h : Laid before rest results) {result : Except LexicalError Token}
    (hresult : result ∈ results) : utf8Len before ≤ (resultSpan result).start := by
  induction h with
  | nil => simp at hresult
  | blank _ _ ih =>
    have hle := ih hresult
    rw [String.utf8Len_append] at hle
    omega
  | part hread _ ih =>
    rcases List.mem_cons.mp hresult with rfl | hresult
    · rw [hread.span]
    · have hle := ih hresult
      rw [String.utf8Len_append] at hle
      omega

/-- Each result stops before the later ones start. -/
theorem ordered (h : Laid before rest results) :
    results.Pairwise fun earlier later =>
      (resultSpan earlier).stop ≤ (resultSpan later).start := by
  induction h with
  | nil => exact .nil
  | blank _ _ ih => exact ih
  | part hread hlaid ih =>
    refine .cons ?_ ih
    intro later hlater
    rw [hread.span, ← String.utf8Len_append]
    exact hlaid.start_le hlater

/-- The bytes of the characters other than blanks are covered. -/
theorem covers_iff (h : Laid before rest results) {front back : List Char} {c : Char}
    (hrest : rest = front ++ c :: back) {byte : Nat} (hle : utf8Len (before ++ front) ≤ byte)
    (hlt : byte < utf8Len (before ++ front) + c.utf8Size) :
    (∃ result ∈ results, Covers byte result) ↔ isBlank c = false := by
  induction h generalizing front with
  | nil => simp at hrest
  | @blank before rest d results hblank hlaid ih =>
    cases front with
    | nil =>
      obtain ⟨rfl, rfl⟩ := List.cons.inj hrest
      simp only [hblank, Bool.true_eq_false, iff_false]
      -- what is read behind the blank starts behind it
      intro h
      obtain ⟨result, hresult, hstart, -⟩ := h
      have hbehind := hlaid.start_le hresult
      simp only [List.append_nil, String.utf8Len_append, String.utf8Len_cons,
        String.utf8Len_nil] at hlt hbehind
      omega
    | cons e front =>
      obtain ⟨rfl, rfl⟩ := List.cons.inj hrest
      exact ih rfl (by simpa using hle) (by simpa using hlt)
  | @part before part rest result results hread hlaid ih =>
    have hspan := hread.span
    rcases part_or_rest hrest with ⟨more, rfl, hback⟩ | ⟨more, hpart⟩
    · -- the character is behind the part, and so is the byte
      have hnot : ¬ Covers byte result := by
        intro hcovers
        have hstop := hcovers.2
        rw [hspan] at hstop
        simp only [String.utf8Len_append] at hle hstop
        omega
      simp only [List.mem_cons, exists_eq_or_imp, hnot, false_or]
      exact ih hback (by simpa using hle) (by simpa using hlt)
    · -- the character is one of the part
      have hcovers : Covers byte result := by
        rw [Covers, hspan, hpart]
        simp only [String.utf8Len_append, String.utf8Len_cons] at hle hlt ⊢
        omega
      simp only [hread.isBlank_eq_false hpart, iff_true]
      exact ⟨result, List.mem_cons_self, hcovers⟩

end Laid

end Token

/-! ## Scanning to the end -/

namespace Cursor

/-- `cursor.Yields results`: reading again and again from the cursor on, behind
    malformed words as well, gives the results and then comes to the end. -/
inductive Yields : Cursor → List (Except LexicalError Token) → Prop where
  | done {cursor : Cursor} : cursor.next? = none → Yields cursor []
  | more {cursor behind : Cursor} {result : Except LexicalError Token}
      {results : List (Except LexicalError Token)} :
      cursor.next? = some (result, behind) → Yields behind results →
      Yields cursor (result :: results)

theorem results_none {cursor : Cursor} (h : cursor.next? = none) : cursor.results = [] := by
  rw [results]
  split <;> simp_all

theorem results_cons {cursor behind : Cursor} {result : Except LexicalError Token}
    (h : cursor.next? = some (result, behind)) : cursor.results = result :: behind.results := by
  rw [results]
  split <;> simp_all

/-- The results depend on where the next one is found, and on nothing else. -/
theorem results_congr {cursor other : Cursor} (h : cursor.next? = other.next?) :
    cursor.results = other.results := by
  match hnext : other.next? with
  | none => rw [results_none hnext, results_none (h.trans hnext)]
  | some (result, behind) => rw [results_cons hnext, results_cons (h.trans hnext)]

theorem yields_results (cursor : Cursor) : cursor.Yields cursor.results := by
  induction cursor using results.induct with
  | case1 cursor hnext =>
    rw [results_none hnext]
    exact .done hnext
  | case2 cursor result behind hnext ih =>
    rw [results_cons hnext]
    exact .more hnext ih

/-- The tokens of a text are all its results, if none is a malformed word. -/
theorem Yields.tokensFrom_eq_ok_iff {cursor : Cursor}
    {results : List (Except LexicalError Token)} (h : cursor.Yields results)
    {taken tokens : List Token} :
    cursor.tokensFrom taken = .ok tokens ↔
      ∃ more, tokens = taken.reverse ++ more ∧ results = more.map .ok := by
  induction h generalizing taken with
  | done hnext =>
    rw [tokensFrom_none hnext, Except.ok.injEq]
    constructor
    · rintro rfl
      exact ⟨[], by simp, rfl⟩
    · intro h
      obtain ⟨more, rfl, hmore⟩ := h
      simp [List.map_eq_nil_iff.mp hmore.symm]
  | @more cursor behind result results hnext _ ih =>
    cases result with
    | error error =>
      rw [tokensFrom_error hnext]
      constructor
      · intro h
        cases h
      · intro h
        obtain ⟨more, -, hmore⟩ := h
        cases more <;> simp at hmore
    | ok token =>
      rw [tokensFrom_token hnext, ih]
      constructor
      · intro h
        obtain ⟨more, rfl, rfl⟩ := h
        exact ⟨token :: more, by simp, rfl⟩
      · intro h
        obtain ⟨more, rfl, hmore⟩ := h
        obtain ⟨token, more, rfl, hfirst, rfl⟩ := List.map_eq_cons_iff.mp hmore.symm
        cases hfirst
        exact ⟨more, by simp, rfl⟩

/-- A text has an error if one of its results is a malformed word, and it is the
    first of these. -/
theorem Yields.tokensFrom_eq_error_iff {cursor : Cursor}
    {results : List (Except LexicalError Token)} (h : cursor.Yields results)
    {taken : List Token} {error : LexicalError} :
    cursor.tokensFrom taken = .error error ↔
      ∃ (tokens : List Token) (more : List (Except LexicalError Token)),
        results = tokens.map .ok ++ .error error :: more := by
  induction h generalizing taken with
  | done hnext =>
    rw [tokensFrom_none hnext]
    simp
  | @more cursor behind result results hnext _ ih =>
    cases result with
    | error first =>
      rw [tokensFrom_error hnext, Except.error.injEq]
      constructor
      · rintro rfl
        exact ⟨[], results, rfl⟩
      · intro h
        obtain ⟨tokens, more, hmore⟩ := h
        cases tokens with
        | nil => simpa using (List.cons.inj hmore).1
        | cons token tokens => simp at hmore
    | ok token =>
      rw [tokensFrom_token hnext, ih]
      constructor
      · intro h
        obtain ⟨tokens, more, rfl⟩ := h
        exact ⟨token :: tokens, more, rfl⟩
      · intro h
        obtain ⟨tokens, more, hmore⟩ := h
        cases tokens with
        | nil => simp at hmore
        | cons other tokens => exact ⟨tokens, more, (List.cons.inj hmore).2⟩

theorem utf8Size_of_isBlank {c : Char} (h : isBlank c = true) : c.utf8Size = 1 := by
  simp only [isBlank, Bool.or_eq_true, beq_iff_eq] at h
  obtain ((rfl | rfl) | rfl) | rfl := h <;> rfl

/-- The results lay out the text, wherever a word may begin or none is to begin. -/
theorem laid_results {before rest : List Char} (hdivided : Divided rest)
    (hbefore : BeginsWord before ∨ endsWord rest = true) :
    Token.Laid before rest (results ⟨rest, utf8Len before⟩) := by
  induction hdivided generalizing before with
  | nil =>
    rw [results_none (next?_nil _)]
    exact .nil
  | @blank c rest hblank _ ih =>
    rw [results_congr (next?_blank hblank rest _)]
    refine .blank hblank ?_
    have hlaid := ih (.inl (beginsWord_blank hblank before))
    rwa [String.utf8Len_append, String.utf8Len_cons, utf8Size_of_isBlank hblank] at hlaid
  | @symbol rest symbol _ ih =>
    rw [results_cons (next?_symbol symbol rest _)]
    refine .part (Token.readFrom_symbol symbol before rest) ?_
    have hlaid := ih (.inl (beginsWord_symbol before symbol))
    rwa [String.utf8Len_append, String.utf8Len_toList] at hlaid
  | @word word rest hword hrest _ ih =>
    have hbegins : BeginsWord before := by
      refine hbefore.resolve_right ?_
      obtain ⟨c, more, rfl⟩ := List.exists_cons_of_ne_nil hword.nonempty
      rw [List.cons_append, endsWord_append_eq_false hword.toUnbroken hrest]
      exact Bool.false_ne_true
    rw [results_cons (next?_word hword hrest _)]
    refine .part (Token.readFrom_word hword hbegins hrest (by rw [String.utf8ByteSize_ofList])) ?_
    have hlaid : Token.Laid (before ++ word) rest (results ⟨rest, utf8Len (before ++ word)⟩) :=
      ih (.inr hrest)
    rwa [String.utf8Len_append, ← String.utf8ByteSize_ofList word] at hlaid

end Cursor

namespace Token

theorem laid_scan (text : String) : Laid [] text.toList (scan text) :=
  Cursor.laid_results (divided text.toList) (.inl beginsWord_nil)

/-- The tokens of a text are its results. -/
theorem scan_of_tokenize {text : String} {tokens : List Token} (h : tokenize text = .ok tokens) :
    scan text = tokens.map .ok := by
  obtain ⟨more, rfl, hscan⟩ := (Cursor.yields_results _).tokensFrom_eq_ok_iff.mp h
  exact hscan

/-- The error of a text is one of its results. -/
theorem error_mem_scan {text : String} {error : LexicalError} (h : tokenize text = .error error) :
    .error error ∈ scan text := by
  obtain ⟨tokens, more, hscan⟩ := (Cursor.yields_results _).tokensFrom_eq_error_iff.mp h
  show .error error ∈ (Cursor.ofText text).results
  rw [hscan]
  exact List.mem_append_right _ List.mem_cons_self

/-- No two tokens stand at one place. -/
theorem nodup_spans {text : String} {tokens : List Token} (h : tokenize text = .ok tokens) :
    (tokens.map Token.span).Nodup := by
  have hlaid := laid_scan text
  rw [scan_of_tokenize h] at hlaid
  refine List.pairwise_map.mpr ((List.pairwise_map.mp hlaid.ordered).imp_of_mem ?_)
  intro earlier later hearlier _ hle heq
  -- the first one would stop before it starts
  obtain ⟨before, part, after, -, hread⟩ := hlaid.readFrom (List.mem_map_of_mem hearlier)
  have hspan : earlier.span = ⟨utf8Len before, utf8Len before + utf8Len part⟩ := hread.span
  have hle' : earlier.span.stop ≤ later.span.start := hle
  have hpart : utf8Len part ≠ 0 := mt String.utf8Len_eq_zero.mp hread.nonempty
  rw [← heq, hspan] at hle'
  show False
  simp only at hle'
  omega

/-- Scanning loses nothing and can go on behind errors. Reading comes to the end
    of every text. The results stand in order and apart from each other, each at
    the characters it was read from; together they cover the bytes of all
    characters but the blanks. A result is an error where a word, a maximal run
    of free characters, is malformed, and nowhere else. The tokens of a text are
    its results, unless there is an error, and then the first one is reported. -/
theorem scan_lossless (text : String) :
    (Cursor.ofText text).Yields (scan text) ∧
    (∀ result ∈ scan text, ∃ before part after, text.toList = before ++ part ++ after ∧
      ReadFrom result before part after) ∧
    ((scan text).Pairwise fun earlier later =>
      (resultSpan earlier).stop ≤ (resultSpan later).start) ∧
    (∀ before c after, text.toList = before ++ c :: after →
      ∀ byte, utf8Len before ≤ byte → byte < utf8Len before + c.utf8Size →
        ((∃ result ∈ scan text, Covers byte result) ↔ isBlank c = false)) ∧
    (∀ tokens, tokenize text = .ok tokens ↔ scan text = tokens.map .ok) ∧
    ∀ error, tokenize text = .error error ↔
      ∃ (tokens : List Token) (more : List (Except LexicalError Token)),
        scan text = tokens.map .ok ++ .error error :: more := by
  have hyields : (Cursor.ofText text).Yields (scan text) := Cursor.yields_results _
  have hlaid : Laid [] text.toList (scan text) :=
    Cursor.laid_results (divided text.toList) (.inl beginsWord_nil)
  refine ⟨hyields, ?_, hlaid.ordered, ?_, ?_, ?_⟩
  · intro result hresult
    exact hlaid.readFrom hresult
  · intro before c after htext byte hle hlt
    exact hlaid.covers_iff htext hle hlt
  · intro tokens
    rw [tokenize, hyields.tokensFrom_eq_ok_iff]
    simp
  · intro error
    exact hyields.tokensFrom_eq_error_iff

-- the first letter is two bytes wide
example : scan "é->a:b:c -" =
    [.ok ⟨.identifier "é", ⟨0, 2⟩⟩, .ok ⟨.symbol .arrow, ⟨2, 4⟩⟩,
      .error (.tooManyQualifiers "a:b:c" ⟨4, 9⟩), .ok ⟨.identifier "-", ⟨10, 11⟩⟩] := by cbv

end Token

end Equational
