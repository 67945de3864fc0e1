import Equational.Proofs.Token.Division

/-! # Spelling

    A text **spells** lexemes when it holds them, written as they are, with
    blanks anywhere between them; a word is followed by something that ends it.
    The scanner accepts the texts that spell lexemes, and gives these lexemes.

    Only **well-formed** lexemes are spelled. A name among them is **lexical**:
    it is a word without a colon.
-/

namespace Equational

/-! ## Lexical names -/

/-- A name that can be written: it is not empty, and holds no blank, no
    parenthesis, comma, equality sign or colon, and no `-` that is followed by
    `>`. -/
structure Lexical (name : String) : Prop where
  isWord : IsWord name.toList
  noColon : ':' ∉ name.toList

instance (name : String) : Decidable (Lexical name) :=
  decidable_of_iff (IsWord name.toList ∧ ':' ∉ name.toList)
    ⟨fun ⟨hword, hcolon⟩ => ⟨hword, hcolon⟩, fun h => ⟨h.1, h.2⟩⟩

/-- A lexeme that the scanner can give. -/
def Lexeme.WellFormed : Lexeme → Prop
  | .symbol _ => True
  | .identifier name => Lexical name
  | .qualified sort name => Lexical sort ∧ Lexical name
  | .keyword word => IsWord word.toList ∧ word.toList.getLast? = some ':'

/-- Whether a lexeme is more than a symbol. -/
def Lexeme.isWord : Lexeme → Bool
  | .symbol _ => false
  | _ => true

/-- Two words with a colon between them are one word. -/
theorem IsWord.append_colon {sort name : List Char} (hsort : IsWord sort) (hname : IsWord name) :
    IsWord (sort ++ ':' :: name) := by
  refine ⟨⟨?_, ?_⟩, List.append_ne_nil_of_right_ne_nil _ (List.cons_ne_nil _ _)⟩
  · intro c hc
    rcases List.mem_append.mp hc with hc | hc
    · exact hsort.plain c hc
    · rcases List.mem_cons.mp hc with rfl | hc
      · decide
      · exact hname.plain c hc
  · -- an arrow across the colon would have it for its `-` or its `>`
    refine List.isChain_split.mpr ⟨?_, ?_⟩
    · refine hsort.noArrow.append (.singleton _) ?_
      intro c _ d hd h
      obtain ⟨-, rfl⟩ := h
      simp at hd
    · refine List.isChain_cons.mpr ⟨?_, hname.noArrow⟩
      intro d _ h
      obtain ⟨hc, -⟩ := h
      simp at hc

theorem Lexeme.text_toList_isWord {lexeme : Lexeme} (h : lexeme.WellFormed)
    (hword : lexeme.isWord = true) : IsWord lexeme.text.toList := by
  cases lexeme with
  | symbol => simp [Lexeme.isWord] at hword
  | identifier name => exact h.isWord
  | qualified sort name =>
    have happend := h.1.isWord.append_colon h.2.isWord
    simpa [Lexeme.text] using happend
  | keyword word => exact h.1

/-! ## Words as lexemes -/

/-- The parts of a word at its first colon. -/
theorem dropWhile_colon_cases (word : List Char) :
    (':' ∉ word ∧ word.dropWhile (· != ':') = []) ∨
      ∃ name, word.dropWhile (· != ':') = ':' :: name ∧
        word = word.takeWhile (· != ':') ++ ':' :: name ∧
        ':' ∉ word.takeWhile (· != ':') := by
  induction word with
  | nil => simp
  | cons c word ih =>
    by_cases hc : c = ':'
    · subst hc
      exact .inr ⟨word, by simp, by simp, by simp⟩
    · have hne : (c != ':') = true := by simpa using hc
      rw [List.dropWhile_cons_of_pos (p := (· != ':')) hne,
        List.takeWhile_cons_of_pos (p := (· != ':')) hne]
      rcases ih with ⟨hnot, hdrop⟩ | ⟨name, hdrop, happend, hnot⟩
      · exact .inl ⟨by simp [hnot, Ne.symm hc], hdrop⟩
      · refine .inr ⟨name, hdrop, ?_, by simp [hnot, Ne.symm hc]⟩
        rw [List.cons_append, ← happend]

theorem dropWhile_colon_append {sort : List Char} (h : ':' ∉ sort) (name : List Char) :
    (sort ++ ':' :: name).dropWhile (· != ':') = ':' :: name ∧
      (sort ++ ':' :: name).takeWhile (· != ':') = sort := by
  have hall : ∀ c ∈ sort, (c != ':') = true := by
    intro c hc
    have hne : c ≠ ':' := fun heq => h (heq ▸ hc)
    simpa using hne
  rw [List.dropWhile_append_of_pos hall, List.takeWhile_append_of_pos hall]
  simp

/-- What is left of a word at its colons is a word, if it is not empty. -/
theorem IsWord.of_append {front back : List Char} (h : IsWord (front ++ back)) :
    (front ≠ [] → IsWord front) ∧ (back ≠ [] → IsWord back) := by
  obtain ⟨hfront, hback, -⟩ := List.isChain_append.mp h.noArrow
  constructor
  · intro hne
    exact ⟨⟨fun c hc => h.plain c (List.mem_append_left _ hc), hfront⟩, hne⟩
  · intro hne
    exact ⟨⟨fun c hc => h.plain c (List.mem_append_right _ hc), hback⟩, hne⟩

namespace Lexeme

theorem ofWord_keyword {word : List Char} (h : word.getLast? = some ':') (span : Span) :
    ofWord word span = .ok (.keyword (String.ofList word)) := by
  rw [ofWord, if_pos h]

theorem ofWord_identifier {word : List Char} (h : ':' ∉ word) (span : Span) :
    ofWord word span = .ok (.identifier (String.ofList word)) := by
  have hlast : word.getLast? ≠ some ':' := fun heq => h (List.mem_of_getLast? heq)
  have hdrop : word.dropWhile (· != ':') = [] := by
    rcases dropWhile_colon_cases word with ⟨-, hdrop⟩ | ⟨name, -, happend, -⟩
    · exact hdrop
    · rw [happend] at h
      simp at h
  simp only [ofWord, if_neg hlast, hdrop]

/-- A word that does not end at a colon is cut at its first one. -/
theorem ofWord_qualified {sort name : List Char} (hsort : ':' ∉ sort)
    (hlast : (sort ++ ':' :: name).getLast? ≠ some ':') (span : Span) :
    ofWord (sort ++ ':' :: name) span =
      if ':' ∈ name then .error (.tooManyQualifiers (String.ofList (sort ++ ':' :: name)) span)
      else if sort = [] then .error (.emptyQualifier (String.ofList (sort ++ ':' :: name)) span)
      else .ok (.qualified (String.ofList sort) (String.ofList name)) := by
  obtain ⟨hdrop, htake⟩ := dropWhile_colon_append hsort name
  simp only [ofWord, if_neg hlast, hdrop, htake, List.contains_iff_mem, List.isEmpty_iff]

/-- A word stands for the well-formed lexeme whose text it is, and is malformed
    when there is none. -/
theorem ofWord_eq_ok_iff {word : List Char} (hword : IsWord word) (span : Span)
    {lexeme : Lexeme} :
    ofWord word span = .ok lexeme ↔
      lexeme.isWord = true ∧ lexeme.WellFormed ∧ lexeme.text.toList = word := by
  constructor
  · intro h
    by_cases hlast : word.getLast? = some ':'
    · -- a word with a colon at its end
      rw [ofWord_keyword hlast] at h
      cases h
      have hformed : (Lexeme.keyword (String.ofList word)).WellFormed := by
        simpa [WellFormed] using ⟨hword, hlast⟩
      exact ⟨rfl, hformed, by simp [text]⟩
    · rcases dropWhile_colon_cases word with ⟨hcolon, -⟩ | ⟨name, -, happend, hsort⟩
      · -- a word without a colon
        rw [ofWord_identifier hcolon] at h
        cases h
        have hlexical : Lexical (String.ofList word) := by
          constructor
          · simpa using hword
          · simpa using hcolon
        exact ⟨rfl, hlexical, by simp [text]⟩
      · -- a word with a colon inside
        generalize word.takeWhile (· != ':') = sort at happend hsort
        subst happend
        rw [ofWord_qualified hsort hlast] at h
        split at h
        · simp at h
        · rename_i hname
          split at h
          · simp at h
          · rename_i hempty
            cases h
            have hback : IsWord ([':'] ++ name) := hword.of_append.2 (List.cons_ne_nil _ _)
            -- a word that ended at the colon would be a keyword
            have hnonempty : name ≠ [] := by
              intro hnil
              rw [hnil] at hlast
              simp at hlast
            have hlexical : Lexical (String.ofList sort) ∧ Lexical (String.ofList name) := by
              constructor
              · exact ⟨by simpa using hword.of_append.1 hempty, by simpa using hsort⟩
              · have hname' : IsWord name := hback.of_append.2 hnonempty
                exact ⟨by simpa using hname', by simpa using hname⟩
            exact ⟨rfl, hlexical, by simp [text]⟩
  · intro h
    obtain ⟨hisWord, hformed, rfl⟩ := h
    cases lexeme with
    | symbol => simp [isWord] at hisWord
    | identifier name =>
      rw [text, ofWord_identifier hformed.noColon, String.ofList_toList]
    | qualified sort name =>
      obtain ⟨hsort, hname⟩ := hformed
      have htext : (text (.qualified sort name)).toList = sort.toList ++ ':' :: name.toList := by
        simp [text]
      -- the last character is one of the name, which has no colon
      have hlast : (sort.toList ++ ':' :: name.toList).getLast? ≠ some ':' := by
        intro heq
        rw [List.getLast?_append_cons, List.getLast?_cons_of_ne_nil hname.isWord.nonempty] at heq
        exact hname.noColon (List.mem_of_getLast? heq)
      rw [htext, ofWord_qualified hsort.noColon hlast, if_neg hname.noColon,
        if_neg hsort.isWord.nonempty, String.ofList_toList, String.ofList_toList]
    | keyword word =>
      rw [text, ofWord_keyword hformed.2, String.ofList_toList]

end Lexeme

/-! ## Texts as lexemes -/

/-- `Spells characters lexemes`: the characters hold the lexemes. -/
inductive Spells : List Char → List Lexeme → Prop where
  | nil : Spells [] []
  | blank {c : Char} {rest : List Char} {lexemes : List Lexeme} :
      isBlank c = true → Spells rest lexemes → Spells (c :: rest) lexemes
  | lexeme {lexeme : Lexeme} {rest : List Char} {lexemes : List Lexeme} :
      lexeme.WellFormed → (lexeme.isWord = true → endsWord rest = true) →
      Spells rest lexemes → Spells (lexeme.text.toList ++ rest) (lexeme :: lexemes)

namespace Spells

/-- A blank before the text. -/
theorem space {characters : List Char} {lexemes : List Lexeme} (h : Spells characters lexemes) :
    Spells (' ' :: characters) lexemes :=
  .blank rfl h

/-- A tabulator before the text. -/
theorem tabulator {characters : List Char} {lexemes : List Lexeme}
    (h : Spells characters lexemes) : Spells ('\t' :: characters) lexemes :=
  .blank rfl h

/-- A line end before the text. -/
theorem lineEnd {characters : List Char} {lexemes : List Lexeme} (h : Spells characters lexemes) :
    Spells ('\n' :: characters) lexemes :=
  .blank rfl h

/-- Only well-formed lexemes are spelled. -/
theorem wellFormed {characters : List Char} {lexemes : List Lexeme}
    (h : Spells characters lexemes) : ∀ lexeme ∈ lexemes, lexeme.WellFormed := by
  induction h with
  | nil => simp
  | blank _ _ ih => exact ih
  | lexeme hformed _ _ ih => simpa using ⟨hformed, ih⟩

theorem symbol {characters : List Char} {lexemes : List Lexeme} (symbol : Symbol)
    (h : Spells characters lexemes) :
    Spells (symbol.text.toList ++ characters) (.symbol symbol :: lexemes) :=
  .lexeme (show (Lexeme.symbol symbol).WellFormed from trivial)
    (fun hword => by simp [Lexeme.isWord] at hword) h

/-- Two texts in a row, when the second one begins with the end of a word. -/
theorem append {front back : List Char} {lexemes others : List Lexeme}
    (hfront : Spells front lexemes) (hback : Spells back others) (hends : endsWord back = true) :
    Spells (front ++ back) (lexemes ++ others) := by
  induction hfront with
  | nil => exact hback
  | blank hblank _ ih => exact .blank hblank ih
  | @lexeme lexeme rest lexemes hformed hrest _ ih =>
    rw [List.append_assoc, List.cons_append]
    exact .lexeme hformed (fun hword => endsWord_append (hrest hword) hends) ih

end Spells

namespace Cursor

/-- A well-formed lexeme that is followed by its end is the next token. -/
theorem next?_lexeme {lexeme : Lexeme} {rest : List Char} (hformed : lexeme.WellFormed)
    (hrest : lexeme.isWord = true → endsWord rest = true) (offset : Nat) :
    ∃ span stop, next? ⟨lexeme.text.toList ++ rest, offset⟩ =
      some (.ok ⟨lexeme, span⟩, ⟨rest, stop⟩) := by
  by_cases hword : lexeme.isWord = true
  · have htext := Lexeme.text_toList_isWord hformed hword
    have hof := fun span => (Lexeme.ofWord_eq_ok_iff htext span).mpr ⟨hword, hformed, rfl⟩
    rw [next?_word htext (hrest hword), hof]
    exact ⟨_, _, rfl⟩
  · cases lexeme with
    | symbol symbol => exact ⟨_, _, next?_symbol symbol rest offset⟩
    | _ => simp [Lexeme.isWord] at hword

/-- A text that spells lexemes is scanned, and gives these lexemes. -/
theorem tokensFrom_of_spells {characters : List Char} {lexemes : List Lexeme}
    (h : Spells characters lexemes) (taken : List Token) (offset : Nat) :
    ∃ tokens, tokensFrom taken ⟨characters, offset⟩ = .ok (taken.reverse ++ tokens) ∧
      tokens.map Token.lexeme = lexemes := by
  induction h generalizing taken offset with
  | nil => exact ⟨[], by rw [tokensFrom_none (next?_nil offset), List.append_nil], rfl⟩
  | blank hblank _ ih =>
    obtain ⟨tokens, htokens, hlexemes⟩ := ih taken (offset + 1)
    exact ⟨tokens, by rw [tokensFrom_congr (next?_blank hblank _ _), htokens], hlexemes⟩
  | @lexeme lexeme rest lexemes hformed hrest _ ih =>
    obtain ⟨span, stop, hnext⟩ := next?_lexeme hformed hrest offset
    obtain ⟨tokens, htokens, hlexemes⟩ := ih (⟨lexeme, span⟩ :: taken) stop
    refine ⟨⟨lexeme, span⟩ :: tokens, ?_, by rw [List.map_cons, hlexemes]⟩
    rw [tokensFrom_token hnext, htokens]
    simp

/-- A text that is scanned spells the lexemes of its tokens. -/
theorem spells_of_tokensFrom {characters : List Char} {taken tokens : List Token} {offset : Nat}
    (h : tokensFrom taken ⟨characters, offset⟩ = .ok tokens) :
    ∃ more, tokens = taken.reverse ++ more ∧ Spells characters (more.map Token.lexeme) := by
  have hdivided := divided characters
  induction hdivided generalizing taken offset with
  | nil =>
    rw [tokensFrom_none (next?_nil offset)] at h
    cases h
    exact ⟨[], by simp, .nil⟩
  | blank hblank _ ih =>
    rw [tokensFrom_congr (next?_blank hblank _ _)] at h
    obtain ⟨more, hmore, hspells⟩ := ih h
    exact ⟨more, hmore, .blank hblank hspells⟩
  | symbol symbol _ ih =>
    rw [tokensFrom_token (next?_symbol symbol _ offset)] at h
    obtain ⟨more, rfl, hspells⟩ := ih h
    exact ⟨⟨.symbol symbol, ⟨offset, offset + symbol.text.utf8ByteSize⟩⟩ :: more, by simp,
      .symbol symbol hspells⟩
  | @word word rest hword hrest _ ih =>
    -- the scan went on, so the word was not malformed
    have hnext := next?_word hword hrest offset
    generalize hspan : (⟨offset, offset + (String.ofList word).utf8ByteSize⟩ : Span) = span at hnext
    cases hof : Lexeme.ofWord word span with
    | error error =>
      rw [hof] at hnext
      rw [tokensFrom_error hnext] at h
      simp at h
    | ok lexeme =>
      rw [hof] at hnext
      rw [tokensFrom_token hnext] at h
      obtain ⟨more, rfl, hspells⟩ := ih h
      obtain ⟨-, hformed, rfl⟩ := (Lexeme.ofWord_eq_ok_iff hword span).mp hof
      exact ⟨⟨lexeme, span⟩ :: more, by simp, .lexeme hformed (fun _ => hrest) hspells⟩

end Cursor

/-- The scanner accepts exactly the texts that spell lexemes, and gives these
    lexemes. -/
theorem Token.tokenize_iff_spells {text : String} {lexemes : List Lexeme} :
    (∃ tokens, tokenize text = .ok tokens ∧ tokens.map Token.lexeme = lexemes) ↔
      Spells text.toList lexemes := by
  constructor
  · intro h
    obtain ⟨tokens, htokens, rfl⟩ := h
    obtain ⟨more, rfl, hspells⟩ := Cursor.spells_of_tokensFrom htokens
    simpa using hspells
  · intro h
    obtain ⟨tokens, htokens, hlexemes⟩ := Cursor.tokensFrom_of_spells h [] 0
    exact ⟨tokens, by simpa [tokenize, Cursor.ofText] using htokens, hlexemes⟩

end Equational
