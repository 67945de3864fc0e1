import Equational.Token.Scanner
import Mathlib.Data.List.Chain

/-! # Blanks, symbols and words

    Every text is divided in one way into blanks, symbols and words, where a
    word reaches up to the next blank or symbol. The scanner skips the blanks
    and reads one token, or one malformed word, for each of the other parts.

    What is shown of all texts goes by induction on this division: a text is
    empty, or a part comes before another text. The scanner's characters and
    offsets are then handled here alone.
-/

namespace Equational

/-! ## Words -/

/-- Whether a character is a symbol of its own wherever it stands. -/
def isMark (c : Char) : Bool :=
  c == '(' || c == ')' || c == ',' || c == '='

/-- The characters are taken together: none of them is a blank or a mark, and no
    `-` is followed by `>`. -/
structure Unbroken (characters : List Char) : Prop where
  plain : ∀ c ∈ characters, isBlank c = false ∧ isMark c = false
  noArrow : characters.IsChain fun c d => ¬ (c = '-' ∧ d = '>')

/-- A word is made of characters that are taken together, of some at least. -/
structure IsWord (word : List Char) : Prop extends Unbroken word where
  nonempty : word ≠ []

-- each character of the word is tried, not each character that there is
instance (word : List Char) : Decidable (IsWord word) :=
  decidable_of_iff ((word.all fun c => !isBlank c && !isMark c) = true ∧
      (word.IsChain fun c d => ¬ (c = '-' ∧ d = '>')) ∧ word ≠ [])
    ⟨fun ⟨hplain, harrow, hne⟩ => ⟨⟨by simpa using hplain, harrow⟩, hne⟩,
      fun h => ⟨by simpa using h.plain, h.noArrow, h.nonempty⟩⟩

theorem unbroken_nil : Unbroken [] :=
  ⟨by simp, .nil⟩

theorem unbroken_cons {c : Char} {rest : List Char} :
    Unbroken (c :: rest) ↔
      ((isBlank c = false ∧ isMark c = false) ∧ ¬ (c = '-' ∧ rest.head? = some '>')) ∧
        Unbroken rest := by
  constructor
  · intro h
    obtain ⟨hplain, harrow⟩ := h
    rw [List.forall_mem_cons] at hplain
    obtain ⟨hfirst, hchain⟩ := List.isChain_cons.mp harrow
    refine ⟨⟨hplain.1, ?_⟩, hplain.2, hchain⟩
    intro h
    exact hfirst '>' h.2 ⟨h.1, rfl⟩
  · intro h
    obtain ⟨⟨hc, hfirst⟩, hplain, hchain⟩ := h
    refine ⟨List.forall_mem_cons.mpr ⟨hc, hplain⟩, List.isChain_cons.mpr ⟨?_, hchain⟩⟩
    intro d hd h
    exact hfirst ⟨h.1, h.2 ▸ hd⟩

/-- A symbol is a mark, or an arrow. -/
theorem Symbol.isSome_read?_iff (c : Char) (rest : List Char) :
    (Symbol.read? (c :: rest)).isSome = true ↔
      isMark c = true ∨ (c = '-' ∧ rest.head? = some '>') := by
  unfold Symbol.read? isMark
  cases rest with
  | nil => grind
  | cons d rest => grind

theorem endsWord_cons (c : Char) (rest : List Char) :
    endsWord (c :: rest) = true ↔
      isBlank c = true ∨ isMark c = true ∨ (c = '-' ∧ rest.head? = some '>') := by
  rw [endsWord, Bool.or_eq_true, Symbol.isSome_read?_iff]

/-- A word goes on at a character that is plain and begins no arrow. -/
theorem endsWord_cons_eq_false {c : Char} {rest : List Char} :
    endsWord (c :: rest) = false ↔
      (isBlank c = false ∧ isMark c = false) ∧ ¬ (c = '-' ∧ rest.head? = some '>') := by
  rw [← Bool.not_eq_true, endsWord_cons]
  simp only [not_or, Bool.not_eq_true, and_assoc]

/-- Nothing that ends a word starts with `>`. -/
theorem head?_ne_of_endsWord {rest : List Char} (h : endsWord rest = true) :
    rest.head? ≠ some '>' := by
  intro hhead
  obtain ⟨more, rfl⟩ : ∃ more, rest = '>' :: more := by
    cases rest with
    | nil => simp at hhead
    | cons c more => exact ⟨more, by simpa using hhead⟩
  have hcases := (endsWord_cons '>' more).mp h
  simp [isBlank, isMark] at hcases

/-- What ends a word still does with more behind it. -/
theorem endsWord_append {rest more : List Char} (hrest : endsWord rest = true)
    (hmore : endsWord more = true) : endsWord (rest ++ more) = true := by
  cases rest with
  | nil => exact hmore
  | cons c rest =>
    rw [List.cons_append, endsWord_cons]
    rcases (endsWord_cons c rest).mp hrest with hblank | hmark | ⟨hdash, hhead⟩
    · exact .inl hblank
    · exact .inr (.inl hmark)
    · -- the `>` stands where it stood
      refine .inr (.inr ⟨hdash, ?_⟩)
      rw [List.head?_append, hhead]
      rfl

/-- A word does not end before one of its characters. -/
theorem endsWord_append_eq_false {c : Char} {word rest : List Char}
    (hword : Unbroken (c :: word)) (hrest : endsWord rest = true) :
    endsWord (c :: (word ++ rest)) = false := by
  obtain ⟨⟨hplain, hfirst⟩, -⟩ := unbroken_cons.mp hword
  refine endsWord_cons_eq_false.mpr ⟨hplain, ?_⟩
  -- the `>` would be in the word, or the first character behind it
  intro h
  obtain ⟨hc, hhead⟩ := h
  cases word with
  | nil => exact head?_ne_of_endsWord hrest hhead
  | cons d word => exact hfirst ⟨hc, hhead⟩

/-- All of a word is taken, and nothing of what follows it. -/
theorem takeWord_append {word rest : List Char} (hword : Unbroken word)
    (hrest : endsWord rest = true) (taken : List Char) :
    takeWord taken (word ++ rest) = (taken.reverse ++ word, rest) := by
  -- a character at a time; the end of the word is seen in what follows it
  induction word generalizing taken with
  | nil =>
    cases rest with
    | nil => simp [takeWord]
    | cons c rest => simp [takeWord, hrest]
  | cons c word ih =>
    have hgoes := endsWord_append_eq_false hword hrest
    rw [List.cons_append, takeWord, hgoes, if_neg Bool.false_ne_true,
      ih (unbroken_cons.mp hword).2]
    simp

/-- What is taken is unbroken, and ends where a word ends. -/
theorem takeWord_spec (taken characters : List Char) :
    ∃ word rest, takeWord taken characters = (taken.reverse ++ word, rest) ∧
      characters = word ++ rest ∧ endsWord rest = true ∧ Unbroken word := by
  induction characters generalizing taken with
  | nil => exact ⟨[], [], by simp [takeWord], rfl, rfl, unbroken_nil⟩
  | cons c characters ih =>
    by_cases hends : endsWord (c :: characters) = true
    · exact ⟨[], c :: characters, by simp [takeWord, hends], rfl, hends, unbroken_nil⟩
    · obtain ⟨word, rest, htake, happend, hrest, hword⟩ := ih (c :: taken)
      obtain ⟨hplain, hfirst⟩ := endsWord_cons_eq_false.mp (Bool.not_eq_true _ ▸ hends)
      refine ⟨c :: word, rest, ?_, by rw [happend, List.cons_append], hrest, ?_⟩
      · rw [takeWord, if_neg hends, htake]
        simp
      · refine unbroken_cons.mpr ⟨⟨hplain, ?_⟩, hword⟩
        -- an arrow in the word would have been one in the text
        intro h
        obtain ⟨hc, hhead⟩ := h
        refine hfirst ⟨hc, ?_⟩
        rw [happend, List.head?_append, hhead]
        rfl

/-! ## The division of a text -/

/-- A text as blanks, symbols and words. -/
inductive Divided : List Char → Prop where
  | nil : Divided []
  | blank {c : Char} {rest : List Char} : isBlank c = true → Divided rest → Divided (c :: rest)
  | symbol {rest : List Char} (symbol : Symbol) :
      Divided rest → Divided (symbol.text.toList ++ rest)
  | word {word rest : List Char} :
      IsWord word → endsWord rest = true → Divided rest → Divided (word ++ rest)

theorem Symbol.read?_eq_some {characters rest : List Char} {symbol : Symbol}
    (h : Symbol.read? characters = some (symbol, rest)) :
    characters = symbol.text.toList ++ rest := by
  unfold Symbol.read? at h
  split at h <;> cases h <;> rfl

/-- A word begins at a character that is neither a blank nor part of a symbol. -/
theorem exists_word_of_endsWord_eq_false {c : Char} {characters : List Char}
    (h : endsWord (c :: characters) = false) :
    ∃ word rest, takeWord [c] characters = (c :: word, rest) ∧
      characters = word ++ rest ∧ IsWord (c :: word) ∧ endsWord rest = true := by
  obtain ⟨word, rest, htake, happend, hrest, hword⟩ := takeWord_spec [] (c :: characters)
  cases word with
  | nil =>
    -- the word would end before its first character
    rw [List.nil_append] at happend
    rw [← happend, h] at hrest
    contradiction
  | cons d word =>
    obtain ⟨rfl, hcharacters⟩ := List.cons.inj happend
    refine ⟨word, rest, ?_, hcharacters, ⟨hword, List.cons_ne_nil _ _⟩, hrest⟩
    rw [takeWord, if_neg (by rw [h]; exact Bool.false_ne_true)] at htake
    exact htake

/-- Every text is divided. -/
theorem divided (characters : List Char) : Divided characters := by
  match characters with
  | [] => exact .nil
  | c :: rest =>
    by_cases hblank : isBlank c = true
    · exact .blank hblank (divided rest)
    · cases hsymbol : Symbol.read? (c :: rest) with
      | some read =>
        have hshort := Symbol.length_of_read? hsymbol
        rw [Symbol.read?_eq_some hsymbol]
        exact .symbol read.1 (divided read.2)
      | none =>
        have hgoes : endsWord (c :: rest) = false := by simp [endsWord, hblank, hsymbol]
        obtain ⟨word, after, -, rfl, hword, hafter⟩ := exists_word_of_endsWord_eq_false hgoes
        exact .word hword hafter (divided after)
termination_by characters.length
decreasing_by all_goals grind

/-! ## The scanner on each part -/

namespace Cursor

@[simp] theorem next?_nil (offset : Nat) : next? ⟨[], offset⟩ = none := rfl

/-- Blanks are skipped. -/
theorem next?_blank {c : Char} (h : isBlank c = true) (rest : List Char) (offset : Nat) :
    next? ⟨c :: rest, offset⟩ = next? ⟨rest, offset + 1⟩ := by
  simp only [next?, pastBlanks, h, if_true]

theorem next?_of_not_isBlank {c : Char} (h : isBlank c = false) (rest : List Char)
    (offset : Nat) : next? ⟨c :: rest, offset⟩ = readToken? ⟨c :: rest, offset⟩ := by
  simp [next?, pastBlanks, h]

/-- A symbol is one token. -/
theorem next?_symbol (symbol : Symbol) (rest : List Char) (offset : Nat) :
    next? ⟨symbol.text.toList ++ rest, offset⟩ =
      some (.ok ⟨.symbol symbol, ⟨offset, offset + symbol.text.utf8ByteSize⟩⟩,
        ⟨rest, offset + symbol.text.utf8ByteSize⟩) := by
  cases symbol <;> rfl

/-- A word is one token, or malformed. -/
theorem next?_word {word rest : List Char} (hword : IsWord word) (hrest : endsWord rest = true)
    (offset : Nat) :
    next? ⟨word ++ rest, offset⟩ =
      some ((Lexeme.ofWord word ⟨offset, offset + (String.ofList word).utf8ByteSize⟩).map
          fun lexeme => ⟨lexeme, ⟨offset, offset + (String.ofList word).utf8ByteSize⟩⟩,
        ⟨rest, offset + (String.ofList word).utf8ByteSize⟩) := by
  obtain ⟨hunbroken, hnonempty⟩ := hword
  cases word with
  | nil => contradiction
  | cons c word =>
    have hblank : isBlank c = false := (hunbroken.plain c List.mem_cons_self).1
    have htake : takeWord [] (c :: (word ++ rest)) = (c :: word, rest) :=
      takeWord_append hunbroken hrest []
    have hgoes : endsWord (c :: (word ++ rest)) = false :=
      endsWord_append_eq_false hunbroken hrest
    -- so no symbol starts at the word either
    have hsymbol : Symbol.read? (c :: (word ++ rest)) = none := by
      simpa [endsWord, hblank] using hgoes
    rw [takeWord, hgoes, if_neg Bool.false_ne_true] at htake
    rw [List.cons_append, next?_of_not_isBlank hblank]
    simp only [readToken?, hsymbol, htake]

/-! ## All tokens of a text -/

theorem tokensFrom_none {cursor : Cursor} (h : cursor.next? = none) (taken : List Token) :
    cursor.tokensFrom taken = .ok taken.reverse := by
  rw [tokensFrom]
  split <;> simp_all

theorem tokensFrom_error {cursor behind : Cursor} {error : LexicalError}
    (h : cursor.next? = some (.error error, behind)) (taken : List Token) :
    cursor.tokensFrom taken = .error error := by
  rw [tokensFrom]
  split <;> simp_all

theorem tokensFrom_token {cursor behind : Cursor} {token : Token}
    (h : cursor.next? = some (.ok token, behind)) (taken : List Token) :
    cursor.tokensFrom taken = behind.tokensFrom (token :: taken) := by
  rw [tokensFrom]
  split <;> simp_all

/-- The tokens depend on where the next one is found, and on nothing else. -/
theorem tokensFrom_congr {cursor other : Cursor} (h : cursor.next? = other.next?)
    (taken : List Token) : cursor.tokensFrom taken = other.tokensFrom taken := by
  match hnext : other.next? with
  | none => rw [tokensFrom_none hnext, tokensFrom_none (h.trans hnext)]
  | some (.error error, behind) =>
    rw [tokensFrom_error hnext, tokensFrom_error (h.trans hnext)]
  | some (.ok token, behind) => rw [tokensFrom_token hnext, tokensFrom_token (h.trans hnext)]

end Cursor

end Equational
