import Equational.Proofs.Grammar.Phrase
import Equational.Proofs.Specification.Validation
import Equational.Proofs.Token.Spelling
import Equational.Term.Rendering

/-! # Readings and what stands in them

    Each term is the reading of a phrase, the one that it is printed as. Where a
    printer writes a name for a term, its phrase is that name alone, and has to be
    read as the term. In the other direction, what stands in a reading was either
    **named** by the text, and then the signature allows it, or it stands in a
    literal.
-/

namespace Equational

/-! ## The phrase of a term -/

/-- How a name is written when one sort is left out. -/
def Head.ofName (omitted : Option String) (sort name : String) : Head :=
  if omitted = some sort then .plain name else .qualified sort name

@[simp] theorem Head.name_ofName (omitted : Option String) (sort name : String) :
    (Head.ofName omitted sort name).name = name := by
  unfold Head.ofName
  split <;> rfl

theorem Head.sort_ofName {omitted : Option String} {defaultSort : String}
    (h : ∀ sort ∈ omitted, sort = defaultSort) (sort name : String) :
    (Head.ofName omitted sort name).sort defaultSort = sort := by
  unfold Head.ofName
  split
  · rename_i heq
    exact (h sort heq).symm
  · rfl

namespace Term

mutual
/-- The phrase that the term is printed as. -/
def phrase (omitted : Option String) : Term → Phrase
  | .app operation sort arguments =>
    .application (Head.ofName omitted sort operation) (phrases omitted arguments)
  | .var name sort => .name (Head.ofName omitted sort name)
/-- The companion of `phrase` on argument lists. -/
def phrases (omitted : Option String) : List Term → List Phrase
  | [] => []
  | t :: ts => phrase omitted t :: phrases omitted ts
end

theorem phrases_eq_map (omitted : Option String) (ts : List Term) :
    phrases omitted ts = ts.map (phrase omitted) := by
  induction ts with
  | nil => rfl
  | cons t ts ih => simp [phrases, ih]

mutual
/-- The phrase that the term is printed as with the help of printers, each of
    which writes a name. -/
def phraseWith (omitted : Option String) (printers : Printers) : Term → Phrase
  | .app operation sort arguments =>
    match printers[sort]? with
    | some print => .name (.plain (print (.app operation sort arguments)))
    | none =>
      .application (Head.ofName omitted sort operation) (phrasesWith omitted printers arguments)
  | .var name sort => .name (Head.ofName omitted sort name)
/-- The companion of `phraseWith` on argument lists. -/
def phrasesWith (omitted : Option String) (printers : Printers) : List Term → List Phrase
  | [] => []
  | t :: ts => phraseWith omitted printers t :: phrasesWith omitted printers ts
end

theorem phrasesWith_eq_map (omitted : Option String) (printers : Printers) (ts : List Term) :
    phrasesWith omitted printers ts = ts.map (phraseWith omitted printers) := by
  induction ts with
  | nil => rfl
  | cons t ts ih => simp [phrasesWith, ih]

theorem phraseWith_empty (omitted : Option String) (term : Term) :
    term.phraseWith omitted ∅ = term.phrase omitted := by
  induction term using Term.induct with
  | var name sort => rfl
  | app operation sort arguments ih =>
    have hprinter : (∅ : Printers)[sort]? = none := by simp
    have harguments : phrasesWith omitted ∅ arguments = phrases omitted arguments := by
      rw [phrasesWith_eq_map, phrases_eq_map]
      exact List.map_congr_left ih
    rw [phraseWith, hprinter, phrase, harguments]

end Term

namespace Scope

variable {scope : Scope} {omitted : Option String}

/-- The signature, if there is one, has distinct names of operations. -/
def Distinct (scope : Scope) : Prop :=
  ∀ signature ∈ scope.signature?, (signature.operations.map Operation.name).Nodup

/-- The phrase of a term reads as the term, if its variables do and the names that
    printers write. -/
theorem reading_phraseWith (homitted : ∀ sort ∈ omitted, sort = scope.defaultSort)
    {printers : Printers} {term : Term}
    (hvariables : ∀ u : Term, u.Subterm term → u.isVariable = true →
      scope.nameTerm u.name u.sort = u)
    (hprinted : ∀ u : Term, u.Subterm term → u.isApplication = true →
      ∀ print ∈ printers[u.sort]?, scope.nameTerm (print u) scope.defaultSort = u) :
    scope.reading (term.phraseWith omitted printers) = term := by
  induction term using Term.induct with
  | var name sort =>
    rw [Term.phraseWith, reading, Head.name_ofName, Head.sort_ofName homitted]
    exact hvariables _ (.refl _) rfl
  | app operation sort arguments ih =>
    cases hprinter : printers[sort]? with
    | some print =>
      have hroot := hprinted (.app operation sort arguments) (.refl _) rfl print hprinter
      rw [Term.phraseWith, hprinter]
      exact hroot
    | none =>
      have heach : ∀ a ∈ arguments, scope.reading (a.phraseWith omitted printers) = a := by
        intro a ha
        exact ih a ha (fun u hu => hvariables u (.argument operation sort ha hu))
          (fun u hu => hprinted u (.argument operation sort ha hu))
      have hall : scope.readings (Term.phrasesWith omitted printers arguments) = arguments := by
        rw [readings_eq_map, Term.phrasesWith_eq_map, List.map_map]
        exact (List.map_congr_left heach).trans (List.map_id arguments)
      rw [Term.phraseWith, hprinter]
      show reading scope (.application _ _) = _
      rw [reading, Head.name_ofName, Head.sort_ofName homitted, hall]

/-- The phrase of a term reads as the term, if its variables do. -/
theorem reading_phrase (homitted : ∀ sort ∈ omitted, sort = scope.defaultSort) {term : Term}
    (hvariables : ∀ u : Term, u.Subterm term → u.isVariable = true →
      scope.nameTerm u.name u.sort = u) :
    scope.reading (term.phrase omitted) = term := by
  rw [← Term.phraseWith_empty]
  exact reading_phraseWith homitted hvariables (by simp)

theorem admitsHead_ofName {sort : String}
    (hsort : ∀ signature ∈ scope.signature?, signature.knows sort = true) (name : String) :
    scope.AdmitsHead (Head.ofName omitted sort name) := by
  unfold Head.ofName
  split
  · trivial
  · exact hsort

/-- The phrase of a term is admitted where the signature allows all that stands
    in the term, and its variables are no literals of other sorts. -/
theorem admits_phrase (homitted : ∀ sort ∈ omitted, sort = scope.defaultSort)
    (hdistinct : scope.Distinct) {term : Term}
    (hallows : ∀ signature ∈ scope.signature?, ∀ u : Term, u.Subterm term → signature.Allows u)
    (hvariables : ∀ u : Term, u.Subterm term → u.isVariable = true →
      scope.AdmitsName u.name u.sort) :
    scope.Admits (term.phrase omitted) := by
  induction term using Term.induct with
  | var name sort =>
    rw [Term.phrase, Admits, Head.name_ofName, Head.sort_ofName homitted]
    refine ⟨admitsHead_ofName ?_ name, hvariables _ (.refl _) rfl⟩
    intro signature hsignature
    exact (hallows signature hsignature _ (.refl _)).known
  | app operation sort arguments ih =>
    rw [Term.phrase, Admits, Head.name_ofName, Head.sort_ofName homitted,
      Term.phrases_eq_map, List.length_map]
    refine ⟨admitsHead_ofName ?_ operation, ?_, ?_⟩
    · intro signature hsignature
      exact (hallows signature hsignature _ (.refl _)).known
    · rw [admitsAll_iff]
      intro a ha
      obtain ⟨t, ht, rfl⟩ := List.mem_map.mp ha
      exact ih t ht
        (fun signature hsignature u hu => hallows signature hsignature u (.argument _ _ ht hu))
        (fun u hu => hvariables u (.argument _ _ ht hu))
    · intro signature hsignature
      rw [Signature.checkApplication_eq_ok_iff (hdistinct signature hsignature)]
      exact (hallows signature hsignature _ (.refl _)).declared rfl

/-! ## What stands in a reading -/

/-- A term whose root is a name of the text. -/
structure Named (scope : Scope) (u : Term) : Prop where
  name : Lexical u.name
  sort : Lexical u.sort
  allowed : ∀ signature ∈ scope.signature?, signature.Allows u
  bare : u.isVariable = true → scope.nameTerm u.name u.sort = u

/-- A term that stands in a literal of a known sort. -/
def InLiteral (scope : Scope) (u : Term) : Prop :=
  ∃ name sort literal, Literal.read? scope.literals name sort = some literal ∧
    (∀ signature ∈ scope.signature?, signature.knows literal.sort = true) ∧ u.Subterm literal

/-- The name at the head of a phrase and its sort are lexical. -/
theorem lexical_of_wellFormed (hdefault : Lexical scope.defaultSort) {head : Head}
    (h : head.lexeme.WellFormed) :
    Lexical head.name ∧ Lexical (head.sort scope.defaultSort) := by
  cases head with
  | plain name => exact ⟨h, hdefault⟩
  | qualified sort name => exact ⟨h.2, h.1⟩

/-- The sort of an admitted name is known. -/
theorem knows_of_admitsHead {signature : Signature} (hsignature : signature ∈ scope.signature?)
    (hdefault : signature.knows scope.defaultSort = true) {head : Head}
    (h : scope.AdmitsHead head) : signature.knows (head.sort scope.defaultSort) = true := by
  cases head with
  | plain name => exact hdefault
  | qualified sort name => exact h signature hsignature

/-- A bare name is a literal, or its term is named. -/
theorem named_nameTerm (hdistinct : scope.Distinct) {name sort : String}
    (hname : Lexical name) (hsort : Lexical sort)
    (hknows : ∀ signature ∈ scope.signature?, signature.knows sort = true)
    (hliteral : Literal.read? scope.literals name sort = none) :
    scope.Named (scope.nameTerm name sort) := by
  have hterm : scope.nameTerm name sort =
      if scope.signature?.any fun signature =>
        sort = signature.name ∧ signature.hasConstant name then .constant name sort
      else .var name sort := by
    rw [nameTerm, hliteral]
  split at hterm
  · -- a constant, which is declared
    rename_i hconstant
    rw [hterm]
    refine ⟨hname, hsort, ?_, by simp [Term.constant, Term.isVariable]⟩
    intro signature hsignature
    refine ⟨hknows signature hsignature, ?_⟩
    intro _ hown
    rw [Option.mem_def.mp hsignature] at hconstant
    have hdeclared : signature.hasConstant name = true := by
      have hboth : sort = signature.name ∧ signature.hasConstant name = true := by
        simpa using hconstant
      exact hboth.2
    exact (Signature.hasConstant_iff (hdistinct signature hsignature)).mp hdeclared
  · -- a variable, of which only the sort is asked
    rw [hterm]
    refine ⟨hname, hsort, ?_, fun _ => hterm⟩
    intro signature hsignature
    exact ⟨hknows signature hsignature, by simp [Term.isApplication]⟩

/-- What stands in the reading of an admitted phrase is named, or stands in a
    literal. -/
theorem named_or_inLiteral (hdefault : Lexical scope.defaultSort)
    (hknows : ∀ signature ∈ scope.signature?, signature.knows scope.defaultSort = true)
    (hdistinct : scope.Distinct) {phrase : Phrase}
    (hlexemes : ∀ lexeme ∈ phrase.lexemes, lexeme.WellFormed) (hadmits : scope.Admits phrase) :
    ∀ u : Term, u.Subterm (scope.reading phrase) → scope.Named u ∨ scope.InLiteral u := by
  induction phrase using Phrase.induct with
  | name head =>
    intro u hu
    obtain ⟨hhead, hname⟩ := hadmits
    obtain ⟨hlexical, hsort⟩ := lexical_of_wellFormed hdefault
      (hlexemes head.lexeme (by simp [Phrase.lexemes]))
    rw [reading] at hu
    cases hliteral : Literal.read? scope.literals head.name (head.sort scope.defaultSort) with
    | some literal =>
      rw [nameTerm_of_literal hliteral] at hu
      exact .inr ⟨_, _, literal, hliteral, hname literal hliteral, hu⟩
    | none =>
      -- a constant or a variable has no subterm but itself
      have hnamed := named_nameTerm hdistinct hlexical hsort
        (fun signature hsignature =>
          knows_of_admitsHead hsignature (hknows signature hsignature) hhead) hliteral
      have harguments :
          (scope.nameTerm head.name (head.sort scope.defaultSort)).arguments = [] := by
        rw [nameTerm, hliteral]
        dsimp only
        split <;> rfl
      have hroot := Term.eq_of_subterm_of_arguments_eq_nil hu harguments
      exact .inl (hroot ▸ hnamed)
  | application head arguments ih =>
    obtain ⟨hhead, hall, hcount⟩ := hadmits
    obtain ⟨hlexical, hsort⟩ := lexical_of_wellFormed hdefault
      (hlexemes head.lexeme (by simp [Phrase.lexemes]))
    rw [reading, Term.forall_subterm_app]
    constructor
    · -- the application itself is named
      refine .inl ⟨hlexical, hsort, ?_, by simp [Term.isVariable]⟩
      intro signature hsignature
      refine ⟨knows_of_admitsHead hsignature (hknows signature hsignature) hhead, ?_⟩
      intro _ hown
      have hcheck := hcount signature hsignature
      rw [Signature.checkApplication_eq_ok_iff (hdistinct signature hsignature)] at hcheck
      simpa [Term.name, Term.arguments, readings_eq_map] using hcheck hown
    · intro t ht
      rw [readings_eq_map] at ht
      obtain ⟨a, ha, rfl⟩ := List.mem_map.mp ht
      have hargument : ∀ lexeme ∈ a.lexemes, lexeme.WellFormed := by
        intro lexeme h
        exact hlexemes lexeme (Phrase.mem_lexemes_of_argument head ha h)
      exact ih a ha hargument (admitsAll_iff.mp hall a ha)

end Scope

end Equational
