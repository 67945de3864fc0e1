import Equational.Proofs.Grammar.Reader

/-! # Phrases

    A **phrase** is a term as it is written: a name, or a name with arguments
    in parentheses. It has its lexemes, and in a scope it has a reading, which
    is a term. A scope with a signature does not **admit** all phrases.

    `readTerm_gives_iff` says that terms are read exactly where an admitted
    phrase is written, and that the term is its reading. The phrase ends where
    it has to: a name that a parenthesis follows is the head of an application.
-/

namespace Equational

/-! ## Phrases and their lexemes -/

/-- A name that a term is written with. -/
inductive Head where
  | plain (name : String)
  | qualified (sort name : String)
deriving DecidableEq, Repr

namespace Head

def lexeme : Head → Lexeme
  | plain name => .identifier name
  | qualified sort name => .qualified sort name

def name : Head → String
  | plain name => name
  | qualified _ name => name

/-- The sort that is written, or else the default. -/
def sort (defaultSort : String) : Head → String
  | plain _ => defaultSort
  | qualified sort _ => sort

theorem lexeme_ne_symbol (head : Head) (symbol : Symbol) : head.lexeme ≠ .symbol symbol := by
  cases head <;> simp [lexeme]

end Head

/-- A term as it is written. -/
inductive Phrase where
  | name (head : Head)
  | application (head : Head) (arguments : List Phrase)
deriving Repr

namespace Phrase

/-- Induction with a hypothesis for every argument. -/
theorem induct {motive : Phrase → Prop} (name : ∀ head, motive (.name head))
    (application : ∀ head arguments, (∀ a ∈ arguments, motive a) →
      motive (.application head arguments)) (phrase : Phrase) : motive phrase :=
  @Phrase.rec motive (fun arguments => ∀ a ∈ arguments, motive a) name application
    (fun _ h => absurd h List.not_mem_nil)
    (fun _ _ ihHead ihTail a ha => by
      rcases List.mem_cons.mp ha with rfl | ha
      · exact ihHead
      · exact ihTail a ha) phrase

/-- Whether no parentheses are written. -/
def isName : Phrase → Bool
  | name _ => true
  | application _ _ => false

mutual
/-- The lexemes that the phrase is written with. -/
def lexemes : Phrase → List Lexeme
  | name head => [head.lexeme]
  | application head arguments => head.lexeme :: .symbol .lparen :: argumentLexemes arguments
/-- The arguments and the closing parenthesis. -/
def argumentLexemes : List Phrase → List Lexeme
  | [] => [.symbol .rparen]
  | a :: arguments => lexemes a ++ moreLexemes arguments
/-- The arguments, each with the comma before it, and the closing parenthesis. -/
def moreLexemes : List Phrase → List Lexeme
  | [] => [.symbol .rparen]
  | a :: arguments => .symbol .comma :: (lexemes a ++ moreLexemes arguments)
end

/-- The name that a phrase begins with. -/
def head : Phrase → Head
  | name head => head
  | application head _ => head

/-- A phrase begins with a name. -/
theorem lexemes_eq_cons (phrase : Phrase) :
    ∃ more, phrase.lexemes = phrase.head.lexeme :: more := by
  cases phrase <;> simp [lexemes, head]

theorem mem_moreLexemes {arguments : List Phrase} {a : Phrase} (ha : a ∈ arguments)
    {lexeme : Lexeme} (h : lexeme ∈ a.lexemes) : lexeme ∈ moreLexemes arguments := by
  induction arguments with
  | nil => simp at ha
  | cons b arguments ih =>
    rw [moreLexemes]
    rcases List.mem_cons.mp ha with rfl | ha
    · simp [h]
    · simp [ih ha]

/-- The lexemes of an argument are among those of the application. -/
theorem mem_lexemes_of_argument (head : Head) {arguments : List Phrase} {a : Phrase}
    (ha : a ∈ arguments) {lexeme : Lexeme} (h : lexeme ∈ a.lexemes) :
    lexeme ∈ (application head arguments).lexemes := by
  rw [lexemes]
  refine List.mem_cons_of_mem _ (List.mem_cons_of_mem _ ?_)
  cases arguments with
  | nil => simp at ha
  | cons b arguments =>
    rw [argumentLexemes, List.mem_append]
    rcases List.mem_cons.mp ha with rfl | ha
    · exact .inl h
    · exact .inr (mem_moreLexemes ha h)

/-- No phrase is written where a symbol stands. -/
theorem not_startsWith_symbol {phrase : Phrase} {more : List Lexeme} {tokens rest : List Token}
    (h : Written (phrase.lexemes ++ more) tokens rest) (symbol : Symbol) :
    ¬ StartsWith (.symbol symbol) tokens := by
  obtain ⟨others, hlexemes⟩ := phrase.lexemes_eq_cons
  rw [hlexemes, List.cons_append] at h
  exact not_startsWith_of_written h _ (phrase.head.lexeme_ne_symbol symbol)

/-- What comes after an argument is a comma or the closing parenthesis. -/
theorem not_startsWith_lparen {arguments : List Phrase} {tokens rest : List Token}
    (h : Written (moreLexemes arguments) tokens rest) :
    ¬ StartsWith (.symbol .lparen) tokens := by
  cases arguments with
  | nil => exact not_startsWith_of_written (by simpa [moreLexemes] using h) _ (by simp)
  | cons a arguments => exact not_startsWith_of_written (by simpa [moreLexemes] using h) _ (by simp)

end Phrase

/-! ## Readings -/

namespace Scope

/-- The term of a name: a literal, or else a constant of the signature, or else
    a variable. -/
def nameTerm (scope : Scope) (name sort : String) : Term :=
  match Literal.read? scope.literals name sort with
  | some literal => literal
  | none =>
    if scope.signature?.any fun signature => sort = signature.name ∧ signature.hasConstant name then
      .constant name sort
    else .var name sort

theorem nameTerm_of_literal {scope : Scope} {name sort : String} {literal : Term}
    (h : Literal.read? scope.literals name sort = some literal) :
    scope.nameTerm name sort = literal := by
  rw [nameTerm, h]

theorem nameTerm_of_signature {scope : Scope} {signature : Signature} {name sort : String}
    (hsignature : scope.signature? = some signature)
    (h : Literal.read? scope.literals name sort = none) :
    scope.nameTerm name sort =
      if sort = signature.name ∧ signature.hasConstant name then .constant name sort
      else .var name sort := by
  rw [nameTerm, h, hsignature]
  simp

mutual
/-- The term that a phrase stands for. -/
def reading (scope : Scope) : Phrase → Term
  | .name head => scope.nameTerm head.name (head.sort scope.defaultSort)
  | .application head arguments =>
    .app head.name (head.sort scope.defaultSort) (readings scope arguments)
/-- The companion of `reading` on argument lists. -/
def readings (scope : Scope) : List Phrase → List Term
  | [] => []
  | a :: arguments => reading scope a :: readings scope arguments
end

theorem readings_eq_map (scope : Scope) (arguments : List Phrase) :
    scope.readings arguments = arguments.map scope.reading := by
  induction arguments with
  | nil => rfl
  | cons a arguments ih => simp [readings, ih]

/-- A written sort is known. -/
def AdmitsHead (scope : Scope) : Head → Prop
  | .plain _ => True
  | .qualified sort _ => ∀ signature ∈ scope.signature?, signature.knows sort = true

/-- The sort of the literal that a name stands for is known. -/
def AdmitsName (scope : Scope) (name sort : String) : Prop :=
  ∀ literal ∈ Literal.read? scope.literals name sort,
    ∀ signature ∈ scope.signature?, signature.knows literal.sort = true

/-- An application has the arguments that it is declared with. -/
def AdmitsApplication (scope : Scope) (name sort : String) (count : Nat) : Prop :=
  ∀ signature ∈ scope.signature?, signature.checkApplication name sort count = .ok ()

mutual
/-- The signature, if there is one, allows the phrase. -/
def Admits (scope : Scope) : Phrase → Prop
  | .name head =>
    scope.AdmitsHead head ∧ scope.AdmitsName head.name (head.sort scope.defaultSort)
  | .application head arguments =>
    scope.AdmitsHead head ∧ AdmitsAll scope arguments ∧
      scope.AdmitsApplication head.name (head.sort scope.defaultSort) arguments.length
/-- The companion of `Admits` on argument lists. -/
def AdmitsAll (scope : Scope) : List Phrase → Prop
  | [] => True
  | a :: arguments => Admits scope a ∧ AdmitsAll scope arguments
end

theorem admitsAll_iff {scope : Scope} {arguments : List Phrase} :
    scope.AdmitsAll arguments ↔ ∀ a ∈ arguments, scope.Admits a := by
  induction arguments with
  | nil => simp [AdmitsAll]
  | cons a arguments ih => simp [AdmitsAll, ih]

/-! ## The parts of the reader -/

/-- The token of an admitted name gives the name and its sort. -/
theorem resolve_of_lexeme {scope : Scope} (head : Head) (token : Token)
    (hlexeme : token.lexeme = head.lexeme) (hadmits : scope.AdmitsHead head) :
    scope.resolve token = .ok (head.name, head.sort scope.defaultSort) := by
  cases head with
  | plain name => simp [resolve, hlexeme, Head.lexeme, Head.name, Head.sort]
  | qualified sort name =>
    have hknows : scope.signature?.all (·.knows sort) = true := by
      cases hsignature : scope.signature? with
      | none => rfl
      | some signature => exact hadmits signature hsignature
    simp [resolve, hlexeme, Head.lexeme, Head.name, Head.sort, hknows]

theorem resolve_eq_ok_iff {scope : Scope} {token : Token} {name sort : String} :
    scope.resolve token = .ok (name, sort) ↔
      ∃ head : Head, token.lexeme = head.lexeme ∧ scope.AdmitsHead head ∧
        head.name = name ∧ head.sort scope.defaultSort = sort := by
  constructor
  · intro h
    obtain ⟨lexeme, span⟩ := token
    cases lexeme with
    | identifier name =>
      simp only [resolve, Except.ok.injEq, Prod.mk.injEq] at h
      exact ⟨.plain name, rfl, trivial, h⟩
    | qualified sort name =>
      simp only [resolve] at h
      split at h
      · rename_i hknows
        cases h
        refine ⟨.qualified sort name, rfl, ?_, rfl, rfl⟩
        intro signature hsignature
        rw [hsignature] at hknows
        exact hknows
      · cases h
    | symbol symbol => simp [resolve] at h
    | keyword word => simp [resolve] at h
  · intro h
    obtain ⟨head, hlexeme, hadmits, rfl, rfl⟩ := h
    exact resolve_of_lexeme head token hlexeme hadmits

theorem terminal_eq_ok_iff (scope : Scope) (name sort : String) (span : Span) (term : Term) :
    scope.terminal name sort span = .ok term ↔
      scope.AdmitsName name sort ∧ scope.nameTerm name sort = term := by
  unfold terminal AdmitsName nameTerm
  cases Literal.read? scope.literals name sort with
  | none =>
    cases scope.signature? with
    | none => simp
    | some signature =>
      by_cases hconstant : sort = signature.name ∧ signature.hasConstant name = true
      · simp [hconstant]
      · simp [hconstant]
  | some literal =>
    cases scope.signature? with
    | none => simp
    | some signature =>
      by_cases hknows : signature.knows literal.sort = true
      · simp [hknows]
      · simp [hknows]

theorem application_eq_ok_iff {scope : Scope} {name sort : String} {arguments : List Term}
    {term : Term} :
    scope.application name sort arguments = .ok term ↔
      scope.AdmitsApplication name sort arguments.length ∧ .app name sort arguments = term := by
  unfold application AdmitsApplication
  cases scope.signature? with
  | none => simp
  | some signature =>
    cases hcheck : signature.checkApplication name sort arguments.length with
    | error error => simp [hcheck]
    | ok value => simp [hcheck]

/-! ## Terms are read where phrases are written -/

open Parsed (Gives)

/-- A phrase that is admitted, is written at the tokens, ends at `rest`, and
    stands for the term. -/
def ReadsTerm (scope : Scope) (tokens : List Token) (term : Term) (rest : List Token) : Prop :=
  ∃ phrase : Phrase, Written phrase.lexemes tokens rest ∧ scope.Admits phrase ∧
    scope.reading phrase = term ∧ (phrase.isName = true → ¬ StartsWith (.symbol .lparen) rest)

/-- Arguments, in one of their two positions, that stand for the terms. -/
def ReadsArguments (scope : Scope) (lexemes : List Phrase → List Lexeme) (tokens : List Token)
    (terms : List Term) (rest : List Token) : Prop :=
  ∃ arguments : List Phrase, Written (lexemes arguments) tokens rest ∧
    scope.AdmitsAll arguments ∧ scope.readings arguments = terms

/-- What the reader of terms gives is written. -/
theorem readsTerm_of_gives (scope : Scope) (tokens : List Token) :
    ∀ term rest, Gives (scope.readTerm tokens) term rest → scope.ReadsTerm tokens term rest := by
  -- on the recursion of the three readers, each with its own part of a phrase
  refine readTerm.induct
    (fun tokens => ∀ term rest, Gives (scope.readTerm tokens) term rest →
      scope.ReadsTerm tokens term rest)
    (fun tokens => ∀ terms rest, Gives (scope.readArguments tokens) terms rest →
      scope.ReadsArguments Phrase.argumentLexemes tokens terms rest)
    (fun tokens => ∀ terms rest, Gives (scope.readMoreArguments tokens) terms rest →
      scope.ReadsArguments Phrase.moreLexemes tokens terms rest)
    ?_ ?_ ?_ ?_ ?_ ?_ ?_ tokens
  · -- no token
    intro term rest h
    rw [readTerm] at h
    exact absurd h Parsed.not_gives_error
  · -- a name and an opening parenthesis
    intro token span inside ih term rest h
    obtain ⟨fewer, h⟩ := h
    rw [readTerm] at h
    obtain ⟨⟨name, sort⟩, hresolve, h⟩ := bind_eq_ok_iff.mp h
    obtain ⟨arguments, harguments, h⟩ := bind_eq_ok_iff.mp h
    obtain ⟨applied, happlication, h⟩ := bind_eq_ok_iff.mp h
    cases h
    obtain ⟨head, hhead, hadmits, rfl, rfl⟩ := resolve_eq_ok_iff.mp hresolve
    obtain ⟨phrases, hwritten, hall, hreadings⟩ := ih _ _ (Parsed.gives_of_eq harguments)
    obtain ⟨hcount, rfl⟩ := application_eq_ok_iff.mp happlication
    rw [← hreadings, readings_eq_map, List.length_map] at hcount
    have hreading : scope.reading (.application head phrases) =
        .app head.name (head.sort scope.defaultSort) arguments.value := by
      rw [reading, hreadings]
    refine ⟨.application head phrases, ?_, ⟨hadmits, hall, hcount⟩, hreading, ?_⟩
    · rw [Phrase.lexemes]
      exact ⟨token.span, _, by rw [← hhead], span, inside, rfl, hwritten⟩
    · intro hname
      simp [Phrase.isName] at hname
  · -- a name that no parenthesis follows
    intro token rest hbare term rest' h
    obtain ⟨fewer, h⟩ := h
    rw [readTerm.eq_3 scope token rest hbare] at h
    obtain ⟨⟨name, sort⟩, hresolve, h⟩ := bind_eq_ok_iff.mp h
    obtain ⟨named, hterminal, h⟩ := bind_eq_ok_iff.mp h
    cases h
    obtain ⟨head, hhead, hadmits, rfl, rfl⟩ := resolve_eq_ok_iff.mp hresolve
    obtain ⟨hliteral, hterm⟩ := (terminal_eq_ok_iff _ _ _ _ _).mp hterminal
    refine ⟨.name head, ?_, ⟨hadmits, hliteral⟩, by rw [reading, hterm], ?_⟩
    · rw [Phrase.lexemes, written_singleton]
      exact ⟨token.span, by rw [← hhead]⟩
    · intro _ hopen
      obtain ⟨span, inside, hrest⟩ := hopen
      exact hbare span inside hrest
  · -- no arguments
    intro span rest terms rest' h
    rw [readArguments] at h
    obtain ⟨rfl, rfl⟩ := Parsed.gives_ok_iff.mp h
    have hwritten : Written (Phrase.argumentLexemes []) (⟨.symbol .rparen, span⟩ :: rest) rest := by
      rw [Phrase.argumentLexemes, written_singleton]
      exact ⟨span, rfl⟩
    exact ⟨[], hwritten, trivial, rfl⟩
  · -- the first argument
    intro tokens hopen ihFirst ihMore terms rest h
    rw [readArguments.eq_2 scope tokens hopen] at h
    obtain ⟨argument, hargument, h⟩ := Parsed.gives_bind_iff.mp h
    obtain ⟨more, hmore, h⟩ := Parsed.gives_bind_iff.mp h
    obtain ⟨rfl, rfl⟩ := Parsed.gives_ok_iff.mp h
    obtain ⟨phrase, hphrase, hadmits, hreading, -⟩ := ihFirst _ _ hargument
    obtain ⟨phrases, hphrases, hall, hreadings⟩ := ihMore argument _ _ hmore
    refine ⟨phrase :: phrases, ?_, ⟨hadmits, hall⟩, by rw [readings, hreading, hreadings]⟩
    rw [Phrase.argumentLexemes, written_append]
    exact ⟨argument.rest, hphrase, hphrases⟩
  · -- the closing parenthesis
    intro span rest terms rest' h
    rw [readMoreArguments] at h
    obtain ⟨rfl, rfl⟩ := Parsed.gives_ok_iff.mp h
    have hwritten : Written (Phrase.moreLexemes []) (⟨.symbol .rparen, span⟩ :: rest) rest := by
      rw [Phrase.moreLexemes, written_singleton]
      exact ⟨span, rfl⟩
    exact ⟨[], hwritten, trivial, rfl⟩
  · -- a comma and one more argument
    intro tokens hopen ihNext ihMore terms rest h
    rw [readMoreArguments.eq_2 scope tokens hopen] at h
    obtain ⟨comma, hcomma, h⟩ := Parsed.gives_bind_iff.mp h
    obtain ⟨argument, hargument, h⟩ := Parsed.gives_bind_iff.mp h
    obtain ⟨more, hmore, h⟩ := Parsed.gives_bind_iff.mp h
    obtain ⟨rfl, rfl⟩ := Parsed.gives_ok_iff.mp h
    obtain ⟨phrase, hphrase, hadmits, hreading, -⟩ := ihNext comma _ _ hargument
    obtain ⟨phrases, hphrases, hall, hreadings⟩ := ihMore comma argument _ _ hmore
    refine ⟨phrase :: phrases, ?_, ⟨hadmits, hall⟩, by rw [readings, hreading, hreadings]⟩
    rw [Phrase.moreLexemes, ← List.singleton_append, written_append]
    exact ⟨comma.rest, Symbol.expect_gives_iff.mp hcomma,
      written_append.mpr ⟨argument.rest, hphrase, hphrases⟩⟩

/-- Further arguments are read where they are written, if every one of them
    is. -/
theorem readMoreArguments_of_written {scope : Scope} {arguments : List Phrase}
    (ih : ∀ a ∈ arguments, ∀ tokens rest, Written a.lexemes tokens rest → scope.Admits a →
      (a.isName = true → ¬ StartsWith (.symbol .lparen) rest) →
      Gives (scope.readTerm tokens) (scope.reading a) rest)
    {tokens rest : List Token} (h : Written (Phrase.moreLexemes arguments) tokens rest)
    (hall : scope.AdmitsAll arguments) :
    Gives (scope.readMoreArguments tokens) (scope.readings arguments) rest := by
  induction arguments generalizing tokens with
  | nil =>
    rw [Phrase.moreLexemes, written_singleton] at h
    obtain ⟨span, rfl⟩ := h
    rw [readMoreArguments]
    exact Parsed.gives_ok_iff.mpr ⟨rfl, rfl⟩
  | cons a arguments ihMore =>
    have hopen : ¬ StartsWith (.symbol .rparen) tokens := by
      rw [Phrase.moreLexemes] at h
      exact not_startsWith_of_written h _ (by simp)
    rw [Phrase.moreLexemes, ← List.singleton_append, written_append] at h
    obtain ⟨behind, hcomma, h⟩ := h
    obtain ⟨middle, ha, hmore⟩ := written_append.mp h
    obtain ⟨hadmits, hall⟩ := hall
    -- a name as an argument is bare: a comma or the closing parenthesis follows
    have hargument := ih a List.mem_cons_self behind middle ha hadmits
      (fun _ => Phrase.not_startsWith_lparen hmore)
    rw [readMoreArguments.eq_2 scope tokens (fun span more h => hopen ⟨span, more, h⟩)]
    refine Parsed.gives_bind (Symbol.expect_gives_iff.mpr hcomma) fun _ => ?_
    refine Parsed.gives_bind hargument fun _ => ?_
    refine Parsed.gives_bind (ihMore (fun b hb => ih b (List.mem_cons_of_mem _ hb)) hmore hall)
      fun _ => ?_
    exact Parsed.gives_ok_iff.mpr ⟨rfl, rfl⟩

/-- The reader of terms gives the reading of an admitted phrase where that is
    written. -/
theorem gives_of_written {scope : Scope} (phrase : Phrase) :
    ∀ tokens rest, Written phrase.lexemes tokens rest → scope.Admits phrase →
      (phrase.isName = true → ¬ StartsWith (.symbol .lparen) rest) →
      Gives (scope.readTerm tokens) (scope.reading phrase) rest := by
  induction phrase using Phrase.induct with
  | name head =>
    intro tokens rest hwritten hadmits hbare
    obtain ⟨hhead, hname⟩ := hadmits
    obtain ⟨span, rfl⟩ := written_singleton.mp hwritten
    rw [readTerm.eq_3 scope _ rest (fun span more h => hbare rfl ⟨span, more, h⟩)]
    have hresolve := resolve_of_lexeme head ⟨head.lexeme, span⟩ rfl hhead
    have hterminal := (terminal_eq_ok_iff scope _ _ span _).mpr ⟨hname, rfl⟩
    exact ⟨_, bind_eq_ok_iff.mpr ⟨_, hresolve, bind_eq_ok_iff.mpr ⟨_, hterminal, rfl⟩⟩⟩
  | application head arguments ih =>
    intro tokens rest hwritten hadmits _
    obtain ⟨hhead, hall, hcount⟩ := hadmits
    obtain ⟨span, more, rfl, span', inside, rfl, hwritten⟩ := hwritten
    -- the first argument has no comma before it, the others have
    have hinside : Gives (scope.readArguments inside) (scope.readings arguments) rest := by
      cases arguments with
      | nil =>
        obtain ⟨span, rfl⟩ := written_singleton.mp hwritten
        rw [readArguments]
        exact Parsed.gives_ok_iff.mpr ⟨rfl, rfl⟩
      | cons a arguments =>
        rw [Phrase.argumentLexemes] at hwritten
        have hopen := Phrase.not_startsWith_symbol hwritten .rparen
        obtain ⟨middle, ha, hmore⟩ := written_append.mp hwritten
        rw [readArguments.eq_2 scope inside (fun span more h => hopen ⟨span, more, h⟩)]
        refine Parsed.gives_bind (ih a List.mem_cons_self inside middle ha hall.1
          (fun _ => Phrase.not_startsWith_lparen hmore)) fun _ => ?_
        refine Parsed.gives_bind (readMoreArguments_of_written
          (fun b hb => ih b (List.mem_cons_of_mem _ hb)) hmore hall.2) fun _ => ?_
        exact Parsed.gives_ok_iff.mpr ⟨rfl, rfl⟩
    obtain ⟨fewer, hinside⟩ := hinside
    have hresolve := resolve_of_lexeme head ⟨head.lexeme, span⟩ rfl hhead
    rw [← List.length_map (f := scope.reading), ← readings_eq_map] at hcount
    have happlication := application_eq_ok_iff.mpr ⟨hcount, rfl⟩
    rw [readTerm]
    exact ⟨_, bind_eq_ok_iff.mpr ⟨_, hresolve, bind_eq_ok_iff.mpr ⟨_, hinside,
      bind_eq_ok_iff.mpr ⟨_, happlication, rfl⟩⟩⟩⟩

/-- A term is read exactly where an admitted phrase for it is written. -/
theorem readTerm_gives_iff {scope : Scope} {tokens rest : List Token} {term : Term} :
    Gives (scope.readTerm tokens) term rest ↔ scope.ReadsTerm tokens term rest := by
  constructor
  · exact readsTerm_of_gives scope tokens term rest
  · intro h
    obtain ⟨phrase, hwritten, hadmits, rfl, hbare⟩ := h
    exact gives_of_written phrase tokens rest hwritten hadmits hbare

end Scope

end Equational
