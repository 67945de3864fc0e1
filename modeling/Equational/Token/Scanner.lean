import Equational.Error

/-! # Scanning

    A **cursor** stands between two characters of a text. `Cursor.next?` skips
    blanks and reads one token, or reports one malformed word, and goes on
    behind it either way, so that scanning can always be resumed.

    A word reaches up to the next blank or symbol. A `-` that no `>` follows is
    part of a word, and so is a `>`.
-/

namespace Equational

/-! ## Characters -/

/-- Space, tab, carriage return and line feed separate tokens; no other
    character does, whatever its class. -/
def isBlank (c : Char) : Bool :=
  c == ' ' || c == '\t' || c == '\r' || c == '\n'

/-- The symbol that `characters` start with, and what follows it. -/
def Symbol.read? : List Char → Option (Symbol × List Char)
  | '(' :: rest => some (.lparen, rest)
  | ')' :: rest => some (.rparen, rest)
  | ',' :: rest => some (.comma, rest)
  | '=' :: rest => some (.equal, rest)
  | '-' :: '>' :: rest => some (.arrow, rest)
  | _ => none

/-- Whether a word ends before `characters`. -/
def endsWord : List Char → Bool
  | [] => true
  | c :: rest => isBlank c || (Symbol.read? (c :: rest)).isSome

/-- The characters up to the end of the word, behind those `taken` already in
    reverse order, and the characters that follow it. -/
def takeWord (taken : List Char) : List Char → List Char × List Char
  | [] => (taken.reverse, [])
  | c :: rest =>
    if endsWord (c :: rest) then (taken.reverse, c :: rest) else takeWord (c :: taken) rest

/-- The lexeme that a word stands for. -/
def Lexeme.ofWord (word : List Char) (span : Span) : Except LexicalError Lexeme :=
  let text := String.ofList word
  -- a colon at the end makes a keyword of any word, whatever else is in it
  if word.getLast? = some ':' then .ok (.keyword text)
  else
    match word.dropWhile (· != ':') with
    | [] => .ok (.identifier text)
    | _ :: name =>
      -- too many qualifiers are reported before an empty one
      let sort := word.takeWhile (· != ':')
      if name.contains ':' then .error (.tooManyQualifiers text span)
      else if sort.isEmpty then .error (.emptyQualifier text span)
      else .ok (.qualified (String.ofList sort) (String.ofList name))

/-! ## Cursors -/

/-- The characters still to be read, and the byte offset of the first of them. -/
structure Cursor where
  rest : List Char
  offset : Nat
deriving Repr

namespace Cursor

/-- The cursor before a text. -/
def ofText (text : String) : Cursor :=
  ⟨text.toList, 0⟩

/-- The cursor behind the blanks at `offset`. -/
def pastBlanks : List Char → Nat → Cursor
  | [], offset => ⟨[], offset⟩
  -- every blank is one byte wide
  | c :: rest, offset => if isBlank c then pastBlanks rest (offset + 1) else ⟨c :: rest, offset⟩

/-- Reads the token at a cursor that stands at no blank. -/
def readToken? (cursor : Cursor) : Option (Except LexicalError Token × Cursor) :=
  match cursor.rest with
  | [] => none
  | c :: rest =>
    match Symbol.read? (c :: rest) with
    | some (symbol, rest) =>
      let stop := cursor.offset + symbol.text.utf8ByteSize
      some (.ok ⟨.symbol symbol, ⟨cursor.offset, stop⟩⟩, ⟨rest, stop⟩)
    | none =>
      -- `c` is no blank and no symbol, so the word holds it
      let (word, rest) := takeWord [c] rest
      let stop := cursor.offset + (String.ofList word).utf8ByteSize
      let span := ⟨cursor.offset, stop⟩
      some ((Lexeme.ofWord word span).map fun lexeme => ⟨lexeme, span⟩, ⟨rest, stop⟩)

/-- The next token or malformed word, and the cursor behind it; `none` at the
    end of the text. -/
def next? (cursor : Cursor) : Option (Except LexicalError Token × Cursor) :=
  (pastBlanks cursor.rest cursor.offset).readToken?

end Cursor

/-! ## Progress

    Reading takes at least one character, so scanning ends. -/

theorem Symbol.length_of_read? {characters rest : List Char} {symbol : Symbol}
    (h : Symbol.read? characters = some (symbol, rest)) : rest.length < characters.length := by
  unfold Symbol.read? at h
  split at h <;> cases h <;> simp only [List.length_cons] <;> omega

theorem takeWord_length (taken characters : List Char) :
    (takeWord taken characters).2.length ≤ characters.length := by
  induction characters generalizing taken with
  | nil => simp [takeWord]
  | cons c rest ih =>
    unfold takeWord
    split
    · exact Nat.le_refl _
    · exact Nat.le_succ_of_le (ih (c :: taken))

namespace Cursor

theorem pastBlanks_length (characters : List Char) (offset : Nat) :
    (pastBlanks characters offset).rest.length ≤ characters.length := by
  induction characters generalizing offset with
  | nil => simp [pastBlanks]
  | cons c rest ih =>
    unfold pastBlanks
    split
    · exact Nat.le_succ_of_le (ih (offset + 1))
    · exact Nat.le_refl _

theorem readToken?_length {cursor behind : Cursor} {result : Except LexicalError Token}
    (h : cursor.readToken? = some (result, behind)) : behind.rest.length < cursor.rest.length := by
  unfold readToken? at h
  split at h
  · simp at h
  · rename_i c rest hc
    rw [hc]
    split at h
    · -- a symbol
      rename_i symbol after hs
      have := Symbol.length_of_read? hs
      simp only [Option.some.injEq, Prod.mk.injEq] at h
      rw [← h.2]
      exact this
    · -- a word, which holds `c` at least
      have := takeWord_length [c] rest
      simp only [Option.some.injEq, Prod.mk.injEq] at h
      rw [← h.2]
      exact Nat.lt_succ_of_le this

theorem next?_length {cursor behind : Cursor} {result : Except LexicalError Token}
    (h : cursor.next? = some (result, behind)) : behind.rest.length < cursor.rest.length :=
  Nat.lt_of_lt_of_le (readToken?_length h) (pastBlanks_length cursor.rest cursor.offset)

/-! ## Whole texts -/

/-- All tokens and malformed words from the cursor on. -/
def results (cursor : Cursor) : List (Except LexicalError Token) :=
  match _step : cursor.next? with
  | none => []
  | some (result, behind) => result :: results behind
termination_by cursor.rest.length
decreasing_by exact next?_length ‹_›

/-- The tokens `taken` already, in reverse order, and those from the cursor on;
    the first malformed word ends the reading. -/
def tokensFrom (taken : List Token) (cursor : Cursor) : Except LexicalError (List Token) :=
  match _step : cursor.next? with
  | none => .ok taken.reverse
  | some (.error error, _) => .error error
  | some (.ok token, behind) => tokensFrom (token :: taken) behind
termination_by cursor.rest.length
decreasing_by exact next?_length ‹_›

end Cursor

namespace Token

/-- All tokens and malformed words of a text, in order. -/
def scan (text : String) : List (Except LexicalError Token) :=
  (Cursor.ofText text).results

/-- The tokens of a text, or its first malformed word. -/
def tokenize (text : String) : Except LexicalError (List Token) :=
  (Cursor.ofText text).tokensFrom []

end Token

end Equational
