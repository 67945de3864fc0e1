import Equational.Proofs.Grammar.Phrase
import Equational.Statement
import Mathlib

/-! # Statements as they are written

    A **sentence** is a statement as it is written: a phrase, or a name, an
    equality sign and a phrase. A text of statements is one sentence after the
    other, and nothing marks where one ends and the next begins.

    It can be seen all the same. What follows a sentence is another one, and that
    begins with a name; a parenthesis or an equality sign belongs to the name
    before it. So lexemes are written in one way at most
    (`Phrase.append_inj`, `Sentence.append_inj`), and the readers find it.
-/

namespace Equational

/-! ## Phrases are written in one way -/

theorem Head.lexeme_injective {head other : Head} (h : head.lexeme = other.lexeme) :
    head = other := by
  cases head <;> cases other <;> simp_all [lexeme]

namespace Phrase

/-- What comes first is the name at the head. -/
theorem lexemes_append_ne_cons (phrase : Phrase) (symbol : Symbol) (more rest : List Lexeme) :
    phrase.lexemes ++ more ≠ .symbol symbol :: rest := by
  obtain ⟨others, hlexemes⟩ := phrase.lexemes_eq_cons
  rw [hlexemes, List.cons_append]
  intro h
  exact phrase.head.lexeme_ne_symbol symbol (List.cons.inj h).1

/-- Nothing that follows an argument opens a parenthesis. -/
theorem head?_moreLexemes_ne (arguments : List Phrase) (rest : List Lexeme) :
    (moreLexemes arguments ++ rest).head? ≠ some (.symbol .lparen) := by
  cases arguments <;> simp [moreLexemes]

/-- The phrase is a bare name only if no parenthesis follows it. -/
def EndsBefore (phrase : Phrase) (rest : List Lexeme) : Prop :=
  phrase.isName = true → rest.head? ≠ some (.symbol .lparen)

/-- Whatever lexemes follow, two phrases with the same lexemes are the same. -/
def Determined (phrase : Phrase) : Prop :=
  ∀ (other : Phrase) (rest rest' : List Lexeme),
    phrase.lexemes ++ rest = other.lexemes ++ rest' →
    phrase.EndsBefore rest → other.EndsBefore rest' → phrase = other ∧ rest = rest'

/-- Arguments are told apart if each of them is: every one but the first has a
    comma before it, and the closing parenthesis is neither a comma nor a name. -/
theorem moreLexemes_inj {arguments others : List Phrase}
    (ih : ∀ a ∈ arguments, a.Determined) {rest rest' : List Lexeme}
    (h : moreLexemes arguments ++ rest = moreLexemes others ++ rest') :
    arguments = others ∧ rest = rest' := by
  induction arguments generalizing others with
  | nil =>
    cases others with
    | nil => simpa [moreLexemes] using h
    | cons b others => simp [moreLexemes] at h
  | cons a arguments ihMore =>
    cases others with
    | nil => simp [moreLexemes] at h
    | cons b others =>
      simp only [moreLexemes, List.cons_append, List.append_assoc, List.cons.injEq,
        true_and] at h
      obtain ⟨rfl, hmore⟩ := ih a List.mem_cons_self b _ _ h
        (fun _ => head?_moreLexemes_ne _ _) (fun _ => head?_moreLexemes_ne _ _)
      obtain ⟨rfl, hrest⟩ := ihMore (fun c hc => ih c (List.mem_cons_of_mem _ hc)) hmore
      exact ⟨rfl, hrest⟩

theorem argumentLexemes_inj {arguments others : List Phrase}
    (ih : ∀ a ∈ arguments, a.Determined) {rest rest' : List Lexeme}
    (h : argumentLexemes arguments ++ rest = argumentLexemes others ++ rest') :
    arguments = others ∧ rest = rest' := by
  cases arguments with
  | nil =>
    cases others with
    | nil => simpa [argumentLexemes] using h
    | cons b others =>
      rw [argumentLexemes, argumentLexemes, List.append_assoc] at h
      exact absurd h.symm (b.lexemes_append_ne_cons _ _ _)
  | cons a arguments =>
    cases others with
    | nil =>
      rw [argumentLexemes, argumentLexemes, List.append_assoc] at h
      exact absurd h (a.lexemes_append_ne_cons _ _ _)
    | cons b others =>
      rw [argumentLexemes, argumentLexemes, List.append_assoc, List.append_assoc] at h
      obtain ⟨rfl, hmore⟩ := ih a List.mem_cons_self b _ _ h
        (fun _ => head?_moreLexemes_ne _ _) (fun _ => head?_moreLexemes_ne _ _)
      obtain ⟨rfl, hrest⟩ := moreLexemes_inj (fun c hc => ih c (List.mem_cons_of_mem _ hc)) hmore
      exact ⟨rfl, hrest⟩

/-- A phrase can be read off its lexemes, with anything behind it that does not
    make its name the head of an application. -/
theorem append_inj (phrase : Phrase) : phrase.Determined := by
  induction phrase using Phrase.induct with
  | name head =>
    intro other rest rest' h hends _
    cases other with
    | name head' =>
      simp only [lexemes, List.singleton_append, List.cons.injEq] at h
      exact ⟨by rw [Head.lexeme_injective h.1], h.2⟩
    | application head' others =>
      -- the parenthesis would follow the name
      simp only [lexemes, List.cons_append, List.nil_append, List.cons.injEq] at h
      exact absurd (by rw [h.2]; rfl) (hends rfl)
  | application head arguments ih =>
    intro other rest rest' h _ hends
    cases other with
    | name head' =>
      simp only [lexemes, List.cons_append, List.nil_append, List.cons.injEq] at h
      exact absurd (by rw [← h.2]; rfl) (hends rfl)
    | application head' others =>
      simp only [lexemes, List.cons_append, List.cons.injEq, true_and] at h
      obtain ⟨rfl, hrest⟩ := argumentLexemes_inj ih h.2
      exact ⟨by rw [Head.lexeme_injective h.1], hrest⟩

/-- A whole list of lexemes is that of one phrase at most. -/
theorem lexemes_injective {phrase other : Phrase} (h : phrase.lexemes = other.lexemes) :
    phrase = other :=
  (phrase.append_inj other [] [] (by rw [h]) (by simp [EndsBefore]) (by simp [EndsBefore])).1

end Phrase

/-! ## Sentences -/

/-- A statement as it is written. -/
inductive Sentence where
  | assignment (name : String) (phrase : Phrase)
  | expression (phrase : Phrase)
deriving Repr

namespace Sentence

/-- The lexemes that the sentence is written with. -/
def lexemes : Sentence → List Lexeme
  | assignment name phrase => .identifier name :: .symbol .equal :: phrase.lexemes
  | expression phrase => phrase.lexemes

/-- The statement that the sentence stands for. The name that is assigned to is
    kept as it is. -/
def reading (scope : Scope) : Sentence → Statement
  | assignment name phrase => .assignment name (scope.reading phrase)
  | expression phrase => .expression (scope.reading phrase)

/-- The lexemes do not begin with a symbol. -/
def Separate (rest : List Lexeme) : Prop :=
  ∀ symbol, rest.head? ≠ some (.symbol symbol)

/-- A sentence begins with a name, and so do several of them. -/
theorem separate_flatMap (sentences : List Sentence) : Separate (sentences.flatMap lexemes) := by
  intro symbol
  cases sentences with
  | nil => simp
  | cons sentence sentences =>
    cases sentence with
    | assignment name phrase => simp [lexemes]
    | expression phrase =>
      obtain ⟨others, hlexemes⟩ := phrase.lexemes_eq_cons
      simpa [lexemes, hlexemes] using phrase.head.lexeme_ne_symbol symbol

/-- An equality sign makes an assignment of the name before it. -/
theorem assignment_ne_expression {name : String} {phrase other : Phrase}
    {rest rest' : List Lexeme} (hrest' : Separate rest') :
    (assignment name phrase).lexemes ++ rest ≠ (expression other).lexemes ++ rest' := by
  intro h
  cases other with
  | name head =>
    simp only [lexemes, Phrase.lexemes, List.cons_append, List.nil_append, List.cons.injEq] at h
    exact hrest' .equal (by rw [← h.2]; rfl)
  | application head arguments => simp [lexemes, Phrase.lexemes] at h

/-- A sentence can be read off its lexemes, with anything behind it that does not
    begin with a symbol. -/
theorem append_inj {sentence other : Sentence} {rest rest' : List Lexeme}
    (h : sentence.lexemes ++ rest = other.lexemes ++ rest') (hrest : Separate rest)
    (hrest' : Separate rest') : sentence = other ∧ rest = rest' := by
  cases sentence with
  | assignment name phrase =>
    cases other with
    | assignment name' phrase' =>
      simp only [lexemes, List.cons_append, List.cons.injEq, Lexeme.identifier.injEq,
        true_and] at h
      obtain ⟨rfl, h⟩ := h
      obtain ⟨rfl, hmore⟩ := phrase.append_inj phrase' _ _ h (fun _ => hrest .lparen)
        (fun _ => hrest' .lparen)
      exact ⟨rfl, hmore⟩
    | expression phrase' => exact absurd h (assignment_ne_expression hrest')
  | expression phrase =>
    cases other with
    | assignment name' phrase' => exact absurd h.symm (assignment_ne_expression hrest)
    | expression phrase' =>
      obtain ⟨rfl, hmore⟩ := phrase.append_inj phrase' _ _ h (fun _ => hrest .lparen)
        (fun _ => hrest' .lparen)
      exact ⟨rfl, hmore⟩

theorem lexemes_ne_nil (sentence : Sentence) : sentence.lexemes ≠ [] := by
  cases sentence with
  | assignment name phrase => simp [lexemes]
  | expression phrase =>
    obtain ⟨others, hlexemes⟩ := phrase.lexemes_eq_cons
    simp [lexemes, hlexemes]

/-- A whole list of lexemes is that of one list of sentences at most. -/
theorem flatMap_lexemes_injective {sentences others : List Sentence}
    (h : sentences.flatMap lexemes = others.flatMap lexemes) : sentences = others := by
  induction sentences generalizing others with
  | nil =>
    cases others with
    | nil => rfl
    | cons other others => simp [other.lexemes_ne_nil] at h
  | cons sentence sentences ih =>
    cases others with
    | nil => simp [sentence.lexemes_ne_nil] at h
    | cons other others =>
      rw [List.flatMap_cons, List.flatMap_cons] at h
      obtain ⟨rfl, hrest⟩ := append_inj h (separate_flatMap sentences) (separate_flatMap others)
      rw [ih hrest]

end Sentence

/-! ## Scopes without a signature -/

namespace Scope

variable {scope : Scope}

/-- A scope without a signature admits everything. -/
theorem admits_of_unchecked (unchecked : scope.signature? = none) (phrase : Phrase) :
    scope.Admits phrase := by
  have hhead : ∀ head, scope.AdmitsHead head := by
    intro head
    cases head <;> simp [AdmitsHead, unchecked]
  induction phrase using Phrase.induct with
  | name head => exact ⟨hhead head, by simp [AdmitsName, unchecked]⟩
  | application head arguments ih =>
    exact ⟨hhead head, admitsAll_iff.mpr ih, by simp [AdmitsApplication, unchecked]⟩

/-- A bare name is the literal that it is read as first, or else a variable. -/
theorem reading_name_of_unchecked (unchecked : scope.signature? = none) (head : Head) :
    scope.reading (.name head) =
      (scope.literals.findSome? fun literal =>
        literal head.name (head.sort scope.defaultSort)).getD
          (.var head.name (head.sort scope.defaultSort)) := by
  rw [reading, nameTerm, unchecked, Literal.read?]
  cases scope.literals.findSome? fun literal => literal head.name (head.sort scope.defaultSort) with
  | none => simp
  | some literal => rfl

theorem reading_application (scope : Scope) (head : Head) (arguments : List Phrase) :
    scope.reading (.application head arguments) =
      .app head.name (head.sort scope.defaultSort) (arguments.map scope.reading) := by
  rw [reading, readings_eq_map]

end Scope

/-! ## Readers of whole texts -/

open Parsed (Gives)

theorem startsWith_iff_head? {lexeme : Lexeme} {tokens : List Token} :
    StartsWith lexeme tokens ↔ (tokens.map Token.lexeme).head? = some lexeme := by
  cases tokens with
  | nil => simp [not_startsWith_nil]
  | cons token tokens => simp [startsWith_cons]

/-- The tokens of a term are those of an admitted phrase for it. -/
theorem Term.ofTokens_eq_ok_iff {scope : Scope} {tokens : List Token} {term : Term} :
    ofTokens scope tokens = .ok term ↔
      ∃ phrase : Phrase, phrase.lexemes = tokens.map Token.lexeme ∧ scope.Admits phrase ∧
        scope.reading phrase = term := by
  rw [ofTokens]
  constructor
  · intro h
    obtain ⟨parsed, hread, h⟩ := bind_eq_ok_iff.mp h
    obtain ⟨hend, h⟩ := check_bind_eq_ok_iff.mp h
    cases h
    obtain ⟨phrase, hwritten, hadmits, hreading, -⟩ :=
      Scope.readTerm_gives_iff.mp (Parsed.gives_of_eq hread)
    rw [expectEnd_eq_ok_iff.mp hend] at hwritten
    exact ⟨phrase, (written_nil_right.mp hwritten).symm, hadmits, hreading⟩
  · intro h
    obtain ⟨phrase, hlexemes, hadmits, rfl⟩ := h
    obtain ⟨_, hread⟩ := Scope.readTerm_gives_iff.mpr
      ⟨phrase, written_nil_right.mpr hlexemes.symm, hadmits, rfl, fun _ => not_startsWith_nil⟩
    exact bind_eq_ok_iff.mpr ⟨_, hread, check_bind_eq_ok_iff.mpr ⟨rfl, rfl⟩⟩

namespace Statement

variable {scope : Scope} {tokens rest : List Token}

/-- The tokens begin with a name that is assigned to. -/
def Assigns (tokens : List Token) : Prop :=
  ∃ name span span' inside,
    tokens = ⟨.identifier name, span⟩ :: ⟨.symbol .equal, span'⟩ :: inside

theorem read_of_not_assigns (h : ¬ Assigns tokens) :
    read scope tokens = (do
      let term ← scope.readTerm tokens
      return ⟨.expression term.value, term.rest, term.fewer⟩) :=
  read.eq_2 scope tokens fun name span span' inside heq => h ⟨name, span, span', inside, heq⟩

theorem written_of_read {statement : Statement} (h : Gives (read scope tokens) statement rest) :
    ∃ sentence : Sentence, Written sentence.lexemes tokens rest ∧
      sentence.reading scope = statement := by
  unfold read at h
  split at h
  · -- an assignment
    rename_i name span span' inside
    obtain ⟨term, hterm, h⟩ := Parsed.gives_bind_iff.mp h
    obtain ⟨rfl, rfl⟩ := Parsed.gives_ok_iff.mp h
    obtain ⟨phrase, hwritten, -, hreading, -⟩ := Scope.readTerm_gives_iff.mp hterm
    refine ⟨.assignment name phrase, ⟨span, _, rfl, span', inside, rfl, hwritten⟩, ?_⟩
    rw [Sentence.reading, hreading]
  · obtain ⟨term, hterm, h⟩ := Parsed.gives_bind_iff.mp h
    obtain ⟨rfl, rfl⟩ := Parsed.gives_ok_iff.mp h
    obtain ⟨phrase, hwritten, -, hreading, -⟩ := Scope.readTerm_gives_iff.mp hterm
    exact ⟨.expression phrase, hwritten, by rw [Sentence.reading, hreading]⟩

/-- A sentence is read where it is written, up to the name that begins the next
    one. -/
theorem read_of_written (unchecked : scope.signature? = none) {sentence : Sentence}
    (h : Written sentence.lexemes tokens rest)
    (hrest : ∀ symbol, ¬ StartsWith (.symbol symbol) rest) :
    Gives (read scope tokens) (sentence.reading scope) rest := by
  have hread : ∀ phrase : Phrase, ∀ inside, Written phrase.lexemes inside rest →
      Gives (scope.readTerm inside) (scope.reading phrase) rest := by
    intro phrase inside hwritten
    exact Scope.readTerm_gives_iff.mpr
      ⟨phrase, hwritten, Scope.admits_of_unchecked unchecked phrase, rfl, fun _ => hrest .lparen⟩
  cases sentence with
  | assignment name phrase =>
    obtain ⟨span, _, rfl, span', inside, rfl, hwritten⟩ := h
    exact Parsed.gives_bind (hread phrase inside hwritten)
      fun _ => Parsed.gives_ok_iff.mpr ⟨rfl, rfl⟩
  | expression phrase =>
    -- the second token is no equality sign
    have hassigns : ¬ Assigns tokens := by
      rintro ⟨name, span, span', inside, rfl⟩
      cases phrase with
      | name head =>
        obtain ⟨_, heq⟩ := written_singleton.mp h
        exact hrest .equal ⟨span', inside, (List.cons.inj heq).2.symm⟩
      | application head arguments =>
        obtain ⟨_, _, heq, _, _, heq', -⟩ := h
        rw [← (List.cons.inj heq).2] at heq'
        simp at heq'
    rw [read_of_not_assigns hassigns]
    exact Parsed.gives_bind (hread phrase tokens h) fun _ => Parsed.gives_ok_iff.mpr ⟨rfl, rfl⟩

/-- Statements are read where sentences are written, up to the end. -/
theorem readAll_eq_ok_iff (unchecked : scope.signature? = none) {statements : List Statement} :
    readAll scope tokens = .ok statements ↔
      ∃ sentences : List Sentence, sentences.flatMap Sentence.lexemes = tokens.map Token.lexeme ∧
        sentences.map (Sentence.reading scope) = statements := by
  constructor
  · intro h
    induction tokens using readAll.induct generalizing statements with
    | case1 =>
      rw [readAll] at h
      cases h
      exact ⟨[], rfl, rfl⟩
    | case2 tokens hnil ih =>
      rw [readAll.eq_2 scope tokens hnil] at h
      obtain ⟨statement, hstatement, h⟩ := bind_eq_ok_iff.mp h
      obtain ⟨more, hmore, h⟩ := bind_eq_ok_iff.mp h
      cases h
      obtain ⟨sentence, hwritten, hreading⟩ := written_of_read (Parsed.gives_of_eq hstatement)
      obtain ⟨sentences, hlexemes, hreadings⟩ := ih statement hmore
      refine ⟨sentence :: sentences, ?_, by rw [List.map_cons, hreading, hreadings]⟩
      rw [List.flatMap_cons]
      exact (written_nil_right.mp (written_append.mpr
        ⟨_, hwritten, written_nil_right.mpr hlexemes.symm⟩)).symm
  · intro h
    obtain ⟨sentences, hlexemes, rfl⟩ := h
    induction sentences generalizing tokens with
    | nil =>
      obtain rfl : tokens = [] := by simpa using hlexemes.symm
      rw [readAll, List.map_nil]
    | cons sentence sentences ih =>
      rw [List.flatMap_cons] at hlexemes
      obtain ⟨middle, hsentence, hmore⟩ :=
        written_append.mp (written_nil_right.mpr hlexemes.symm)
      have hmiddle := written_nil_right.mp hmore
      obtain ⟨_, hread⟩ := read_of_written unchecked hsentence (by
        intro symbol
        rw [startsWith_iff_head?, hmiddle]
        exact Sentence.separate_flatMap sentences symbol)
      have hnil : tokens ≠ [] := by
        rintro rfl
        simp [sentence.lexemes_ne_nil] at hlexemes
      rw [readAll.eq_2 scope tokens hnil]
      exact bind_eq_ok_iff.mpr ⟨_, hread, bind_eq_ok_iff.mpr ⟨_, ih hmiddle.symm, rfl⟩⟩

/-- The tokens of statements are those of sentences, of one at least. -/
theorem ofTokens_eq_ok_iff (unchecked : scope.signature? = none) {statements : List Statement} :
    ofTokens scope tokens = .ok statements ↔
      ∃ sentences : List Sentence, sentences ≠ [] ∧
        sentences.flatMap Sentence.lexemes = tokens.map Token.lexeme ∧
        sentences.map (Sentence.reading scope) = statements := by
  cases tokens with
  | nil =>
    simp only [ofTokens, reduceCtorEq, List.map_nil, false_iff]
    intro h
    obtain ⟨sentences, hne, hlexemes, -⟩ := h
    exact hne (Sentence.flatMap_lexemes_injective hlexemes)
  | cons token tokens =>
    rw [ofTokens.eq_2 scope (token :: tokens) (by simp), readAll_eq_ok_iff unchecked]
    constructor
    · intro h
      obtain ⟨sentences, hlexemes, hreadings⟩ := h
      refine ⟨sentences, ?_, hlexemes, hreadings⟩
      rintro rfl
      simp at hlexemes
    · intro h
      obtain ⟨sentences, -, h⟩ := h
      exact ⟨sentences, h⟩

/-- The texts that are read as a term, or as statements, are those whose tokens
    derive from the grammar. The derivation is then the only one, and what is read
    is its reading: a name without a sort has the default one, a name with
    parentheses is applied to its arguments in their order, and any other name
    that is not assigned to is what the first literal that accepts it makes of
    it, or else a variable. -/
theorem reading_of_unique_derivation (text defaultSort : String) (literals : List Literal)
    (tokens : List Token) (tokenized : Token.tokenize text = .ok tokens) :
    let scope : Scope := ⟨defaultSort, none, literals⟩
    let lexemes := tokens.map Token.lexeme
    (∀ term, Term.parse text defaultSort literals = .ok term ↔
      ∃ phrase : Phrase, phrase.lexemes = lexemes ∧ scope.reading phrase = term) ∧
    (∀ phrase other : Phrase, phrase.lexemes = lexemes → other.lexemes = lexemes →
      phrase = other) ∧
    (∀ statements, Statement.parse text defaultSort literals = .ok statements ↔
      ∃ sentences : List Sentence, sentences ≠ [] ∧
        sentences.flatMap Sentence.lexemes = lexemes ∧
        sentences.map (Sentence.reading scope) = statements) ∧
    (∀ sentences others : List Sentence, sentences.flatMap Sentence.lexemes = lexemes →
      others.flatMap Sentence.lexemes = lexemes → sentences = others) ∧
    (∀ head : Head, scope.reading (.name head) =
      (literals.findSome? fun literal => literal head.name (head.sort defaultSort)).getD
        (.var head.name (head.sort defaultSort))) ∧
    ∀ (head : Head) (arguments : List Phrase), scope.reading (.application head arguments) =
      .app head.name (head.sort defaultSort) (arguments.map scope.reading) := by
  intro scope lexemes
  have hread : readTokens text = .ok tokens := readTokens_eq_ok_iff.mpr tokenized
  have unchecked : scope.signature? = none := rfl
  refine ⟨?_, ?_, ?_, ?_, ?_, ?_⟩
  · intro term
    have hparse : Term.parse text defaultSort literals = Term.ofTokens scope tokens := by
      rw [Term.parse, hread]
      rfl
    rw [hparse, Term.ofTokens_eq_ok_iff]
    constructor
    · intro h
      obtain ⟨phrase, hlexemes, -, hreading⟩ := h
      exact ⟨phrase, hlexemes, hreading⟩
    · intro h
      obtain ⟨phrase, hlexemes, hreading⟩ := h
      exact ⟨phrase, hlexemes, Scope.admits_of_unchecked unchecked phrase, hreading⟩
  · intro phrase other h h'
    exact Phrase.lexemes_injective (h.trans h'.symm)
  · intro statements
    have hparse : Statement.parse text defaultSort literals = ofTokens scope tokens := by
      rw [Statement.parse, hread]
      rfl
    rw [hparse]
    exact ofTokens_eq_ok_iff unchecked
  · intro sentences others h h'
    exact Sentence.flatMap_lexemes_injective (h.trans h'.symm)
  · exact Scope.reading_name_of_unchecked unchecked
  · exact scope.reading_application

/-- A name and an assignment after it are told apart without a separator. The
    numeral is a literal, and neither the name assigned to nor that of the
    operation is offered to one. -/
theorem name_and_assignment_read :
    let text := "x 1 = f(1)"
    Token.tokenize text = .ok
      [⟨.identifier "x", ⟨0, 1⟩⟩, ⟨.identifier "1", ⟨2, 3⟩⟩, ⟨.symbol .equal, ⟨4, 5⟩⟩,
        ⟨.identifier "f", ⟨6, 7⟩⟩, ⟨.symbol .lparen, ⟨7, 8⟩⟩, ⟨.identifier "1", ⟨8, 9⟩⟩,
        ⟨.symbol .rparen, ⟨9, 10⟩⟩] ∧
      parse text "Stack" Literal.standard = .ok
        [.expression (.var "x" "Stack"), .assignment "1" (.app "f" "Stack" [.ofCount 1])] ∧
      ∀ term, Term.parse text "Stack" Literal.standard ≠ .ok term := by
  intro text
  have tokenized : Token.tokenize text = .ok
      [⟨.identifier "x", ⟨0, 1⟩⟩, ⟨.identifier "1", ⟨2, 3⟩⟩, ⟨.symbol .equal, ⟨4, 5⟩⟩,
        ⟨.identifier "f", ⟨6, 7⟩⟩, ⟨.symbol .lparen, ⟨7, 8⟩⟩, ⟨.identifier "1", ⟨8, 9⟩⟩,
        ⟨.symbol .rparen, ⟨9, 10⟩⟩] := by cbv
  obtain ⟨hterm, -, hstatements, -, -, -⟩ :=
    reading_of_unique_derivation text "Stack" Literal.standard _ tokenized
  refine ⟨tokenized, ?_, ?_⟩
  · refine (hstatements _).mpr ⟨[.expression (.name (.plain "x")),
      .assignment "1" (.application (.plain "f") [.name (.plain "1")])], by simp, rfl, by cbv⟩
  · rintro term h
    obtain ⟨phrase, hlexemes, -⟩ := (hterm term).mp h
    cases phrase with
    | name head => simp [Phrase.lexemes] at hlexemes
    | application head arguments => simp [Phrase.lexemes] at hlexemes

end Statement

end Equational
