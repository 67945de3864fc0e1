import Equational.Proofs.Except
import Equational.Term.Parser

/-! # Readers and what they read

    A reader **gives** a value and the tokens it leaves. The grammar says which
    lexemes such a value is **written** with: the tokens are these lexemes,
    wherever they stand in the text, and then the tokens that are left.

    The readers of the grammar are described by the two together, in both
    directions: a reader gives a value exactly where the value is written.
-/

namespace Equational

/-! ## Readers -/

namespace Parsed

variable {bound bound' : Nat} {α β : Type}

/-- The reader succeeds with the value, and leaves the tokens `rest`. -/
def Gives (result : Except Error (Parsed bound α)) (value : α) (rest : List Token) : Prop :=
  ∃ fewer, result = .ok ⟨value, rest, fewer⟩

theorem gives_of_eq {result : Except Error (Parsed bound α)} {parsed : Parsed bound α}
    (h : result = .ok parsed) : Gives result parsed.value parsed.rest :=
  ⟨parsed.fewer, h⟩

theorem gives_ok_iff {parsed : Parsed bound α} {value : α} {rest : List Token} :
    Gives (.ok parsed) value rest ↔ parsed.value = value ∧ parsed.rest = rest := by
  constructor
  · intro h
    obtain ⟨fewer, h⟩ := h
    cases h
    exact ⟨rfl, rfl⟩
  · intro h
    obtain ⟨rfl, rfl⟩ := h
    exact gives_of_eq rfl

theorem not_gives_error {error : Error} {value : α} {rest : List Token} :
    ¬ Gives (.error error : Except Error (Parsed bound α)) value rest := by
  intro h
  obtain ⟨_, h⟩ := h
  cases h

/-- Two readers in turn: the second reads what the first leaves. -/
theorem gives_bind_iff {first : Except Error (Parsed bound α)}
    {next : Parsed bound α → Except Error (Parsed bound' β)} {value : β} {rest : List Token} :
    Gives (first >>= next) value rest ↔
      ∃ parsed, Gives first parsed.value parsed.rest ∧ Gives (next parsed) value rest := by
  constructor
  · intro h
    obtain ⟨fewer, h⟩ := h
    obtain ⟨parsed, hfirst, hnext⟩ := bind_eq_ok_iff.mp h
    exact ⟨parsed, gives_of_eq hfirst, fewer, hnext⟩
  · intro h
    obtain ⟨parsed, ⟨_, hfirst⟩, fewer, hnext⟩ := h
    exact ⟨fewer, bind_eq_ok_iff.mpr ⟨parsed, hfirst, hnext⟩⟩

theorem gives_bind {first : Except Error (Parsed bound α)}
    {next : Parsed bound α → Except Error (Parsed bound' β)} {value : α} {result : β}
    {middle rest : List Token} (hfirst : Gives first value middle)
    (hnext : ∀ fewer, Gives (next ⟨value, middle, fewer⟩) result rest) :
    Gives (first >>= next) result rest := by
  obtain ⟨fewer, hfirst⟩ := hfirst
  exact gives_bind_iff.mpr ⟨⟨value, middle, fewer⟩, ⟨fewer, hfirst⟩, hnext fewer⟩

end Parsed

/-! ## Written lexemes -/

/-- `Written lexemes tokens rest`: the tokens are the lexemes, and then `rest`. -/
def Written : List Lexeme → List Token → List Token → Prop
  | [], tokens, rest => tokens = rest
  | lexeme :: lexemes, tokens, rest =>
    ∃ span more, tokens = ⟨lexeme, span⟩ :: more ∧ Written lexemes more rest

@[simp] theorem written_nil {tokens rest : List Token} : Written [] tokens rest ↔ tokens = rest :=
  .rfl

theorem written_cons {lexeme : Lexeme} {lexemes : List Lexeme} {tokens rest : List Token} :
    Written (lexeme :: lexemes) tokens rest ↔
      ∃ span more, tokens = ⟨lexeme, span⟩ :: more ∧ Written lexemes more rest :=
  .rfl

theorem written_singleton {lexeme : Lexeme} {tokens rest : List Token} :
    Written [lexeme] tokens rest ↔ ∃ span, tokens = ⟨lexeme, span⟩ :: rest := by
  simp [written_cons]

theorem written_append {front back : List Lexeme} {tokens rest : List Token} :
    Written (front ++ back) tokens rest ↔
      ∃ middle, Written front tokens middle ∧ Written back middle rest := by
  induction front generalizing tokens with
  | nil => simp
  | cons lexeme front ih =>
    simp only [List.cons_append, written_cons, ih]
    constructor
    · intro h
      obtain ⟨span, more, rfl, middle, hfront, hback⟩ := h
      exact ⟨middle, ⟨span, more, rfl, hfront⟩, hback⟩
    · intro h
      obtain ⟨middle, ⟨span, more, rfl, hfront⟩, hback⟩ := h
      exact ⟨span, more, rfl, middle, hfront, hback⟩

/-- The tokens that were taken stand before those that are left. -/
theorem written_iff {lexemes : List Lexeme} {tokens rest : List Token} :
    Written lexemes tokens rest ↔
      ∃ taken, tokens = taken ++ rest ∧ taken.map Token.lexeme = lexemes := by
  induction lexemes generalizing tokens with
  | nil => simp
  | cons lexeme lexemes ih =>
    rw [written_cons]
    constructor
    · intro h
      obtain ⟨span, more, rfl, hmore⟩ := h
      obtain ⟨taken, rfl, rfl⟩ := ih.mp hmore
      exact ⟨⟨lexeme, span⟩ :: taken, rfl, rfl⟩
    · intro h
      obtain ⟨taken, rfl, htaken⟩ := h
      obtain ⟨token, others, rfl, rfl, rfl⟩ := List.map_eq_cons_iff.mp htaken
      exact ⟨token.span, others ++ rest, rfl, ih.mpr ⟨others, rfl, rfl⟩⟩

/-- The lexemes of all tokens are written with nothing behind them. -/
theorem written_nil_right {lexemes : List Lexeme} {tokens : List Token} :
    Written lexemes tokens [] ↔ tokens.map Token.lexeme = lexemes := by
  rw [written_iff]
  simp

/-- The tokens begin with the lexeme. -/
def StartsWith (lexeme : Lexeme) (tokens : List Token) : Prop :=
  ∃ span more, tokens = ⟨lexeme, span⟩ :: more

theorem startsWith_cons {lexeme : Lexeme} {token : Token} {tokens : List Token} :
    StartsWith lexeme (token :: tokens) ↔ token.lexeme = lexeme := by
  constructor
  · intro h
    obtain ⟨span, more, h⟩ := h
    cases h
    rfl
  · rintro rfl
    exact ⟨token.span, tokens, rfl⟩

theorem not_startsWith_nil {lexeme : Lexeme} : ¬ StartsWith lexeme [] := by
  intro h
  obtain ⟨span, more, h⟩ := h
  cases h

/-- Where one lexeme is written, no other is. -/
theorem not_startsWith_of_written {lexeme : Lexeme} {lexemes : List Lexeme}
    {tokens rest : List Token} (h : Written (lexeme :: lexemes) tokens rest)
    (other : Lexeme) (hne : lexeme ≠ other) : ¬ StartsWith other tokens := by
  obtain ⟨span, more, rfl, -⟩ := written_cons.mp h
  rw [startsWith_cons]
  exact hne

/-! ## Readers of one token -/

open Parsed (Gives)

theorem Symbol.expect_gives_iff {symbol : Symbol} {tokens rest : List Token} :
    Gives (symbol.expect tokens) () rest ↔ Written [.symbol symbol] tokens rest := by
  rw [written_singleton]
  cases tokens with
  | nil => simp [expect, Parsed.not_gives_error]
  | cons token tokens =>
    obtain ⟨lexeme, span⟩ := token
    by_cases h : lexeme = .symbol symbol
    · subst h
      simp [expect, Parsed.gives_ok_iff]
    · simp [expect, h, Parsed.not_gives_error]

theorem readIdentifier_gives_iff {role : Expected} {tokens rest : List Token} {name : String} :
    Gives (readIdentifier role tokens) name rest ↔ Written [.identifier name] tokens rest := by
  rw [written_singleton]
  unfold readIdentifier
  split
  · simp [Parsed.not_gives_error]
  · simp [Parsed.gives_ok_iff]
  · rename_i token tokens hother
    constructor
    · intro h
      exact absurd h Parsed.not_gives_error
    · intro h
      obtain ⟨span, h⟩ := h
      cases h
      exact absurd rfl (hother name span)

theorem expectEnd_eq_ok_iff {tokens : List Token} : expectEnd tokens = .ok () ↔ tokens = [] := by
  cases tokens with
  | nil => simp [expectEnd]
  | cons token tokens => simp [expectEnd]

/-! ## The tokens of a text -/

theorem readTokens_eq_ok_iff {text : String} {tokens : List Token} :
    readTokens text = .ok tokens ↔ Token.tokenize text = .ok tokens := by
  unfold readTokens
  cases Token.tokenize text with
  | error error => simp
  | ok tokens => simp

end Equational
