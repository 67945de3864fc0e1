import Equational.Proofs.Grammar.RoundTrip
import Equational.Proofs.Term.Number

/-! # Canonical terms

    A ground term is **canonical** when what stands in it of the sorts of numbers
    and of truth values is a value, for a number one that a literal can give, and
    all other names can be written.

    The printers write numbers and truth values as bare names, and the literals
    read these back. Nothing else in a canonical term is a bare name, since it has
    no variables: `printed_canonical_parses_back` says that its text is read as the
    term again, whichever sort is left out.
-/

namespace Equational

/-! ## Printers and literals -/

/-- The printers of numbers and of truth values. -/
def Printers.standard : Printers :=
  ((∅ : Printers).insert numberSort Printer.number).insert truthSort Printer.truth

/-- The printers are those of the two sorts. -/
theorem Printers.mem_standard {sort : String} {print : Printer} :
    print ∈ Printers.standard[sort]? ↔
      (sort = numberSort ∧ print = Printer.number) ∨
        (sort = truthSort ∧ print = Printer.truth) := by
  have hne : truthSort ≠ numberSort := by decide
  unfold standard
  rw [Std.TreeMap.getElem?_insert, Std.TreeMap.getElem?_insert, Option.mem_def]
  simp only [Std.LawfulEqCmp.compare_eq_iff_eq, Std.TreeMap.getElem?_emptyc]
  by_cases htruth : truthSort = sort
  · subst htruth
    simp [hne, eq_comm]
  · by_cases hnumber : numberSort = sort
    · subst hnumber
      simp [hne, Ne.symm hne, eq_comm]
    · simp [htruth, hnumber, Ne.symm htruth, Ne.symm hnumber]

/-- A digit has no meaning of its own in a word. -/
theorem plain_of_isDigit {c : Char} (h : c.isDigit = true) :
    (isBlank c = false ∧ isMark c = false) ∧ c ≠ '-' ∧ c ≠ ':' := by
  have hne : ∀ other : Char, other.isDigit = false → c ≠ other := by
    intro other hother heq
    rw [← heq, h] at hother
    contradiction
  refine ⟨⟨?_, ?_⟩, hne _ rfl, hne _ rfl⟩
  · simp [isBlank, hne ' ' rfl, hne '\t' rfl, hne '\r' rfl, hne '\n' rfl]
  · simp [isMark, hne '(' rfl, hne ')' rfl, hne ',' rfl, hne '=' rfl]

/-- A numeral is a name as others are. -/
theorem lexical_toString (count : Nat) : Lexical (toString count) := by
  have hplain : ∀ c ∈ (toString count).toList,
      (isBlank c = false ∧ isMark c = false) ∧ c ≠ '-' ∧ c ≠ ':' :=
    fun c hc => plain_of_isDigit (Numeral.isDigit_of_mem_toString hc)
  have harrow : (toString count).toList.Pairwise fun c d => ¬ (c = '-' ∧ d = '>') :=
    List.pairwise_of_forall_mem_list fun c hc _ _ h => (hplain c hc).2.1 h.1
  have hne : (toString count).toList ≠ [] := by
    rw [Numeral.toList_toString]
    exact Nat.toDigits_ne_nil
  refine ⟨⟨⟨fun c hc => (hplain c hc).1, harrow.isChain⟩, hne⟩, ?_⟩
  intro hcolon
  exact (hplain ':' hcolon).2.2 rfl

namespace Literal

theorem read?_toString {count : Nat} (h : count < 0x1_0000_0000) (sort : String) :
    read? standard (toString count) sort = some (.ofCount count) := by
  have hnumber : number (toString count) sort = some (.ofCount count) := by
    unfold number
    rw [Numeral.read_toString h]
  unfold read? standard
  rw [List.findSome?_cons, hnumber]

/-- The names of the truth values are no numerals. -/
theorem read?_truth {name : String} (h : name = "true" ∨ name = "false") (sort : String) :
    read? standard name sort = some (.constant name truthSort) := by
  rcases h with rfl | rfl
  · cbv
  · cbv

end Literal

/-! ## Canonical terms -/

namespace Term

/-- A ground term with values only in the sorts of numbers and of truth values, and
    with lexical names in all other sorts. -/
structure Canonical (term : Term) : Prop where
  ground : term.isGround = true
  numbers : ∀ u : Term, u.Subterm term → u.sort = numberSort →
    ∃ count < 0x1_0000_0000, u = .ofCount count
  truths : ∀ u : Term, u.Subterm term → u.sort = truthSort →
    ∃ name, (name = "true" ∨ name = "false") ∧ u = .constant name truthSort
  lexical : ∀ u : Term, u.Subterm term → u.sort ≠ numberSort → u.sort ≠ truthSort →
    Lexical u.name ∧ Lexical u.sort

theorem canonical_ofCount {count : Nat} (h : count < 0x1_0000_0000) :
    (ofCount count).Canonical := by
  have hsub : ∀ u : Term, u.Subterm (ofCount count) →
      ∃ lower < 0x1_0000_0000, u = ofCount lower := by
    intro u hu
    obtain ⟨lower, hle, hlower⟩ := exists_ofCount_of_subterm hu
    exact ⟨lower, Nat.lt_of_le_of_lt hle h, hlower⟩
  have hsort : ∀ u : Term, u.Subterm (ofCount count) → u.sort = numberSort := by
    intro u hu
    obtain ⟨lower, -, rfl⟩ := hsub u hu
    exact sort_ofCount lower
  refine ⟨isGround_ofCount count, fun u hu _ => hsub u hu, ?_, ?_⟩
  · intro u hu htruth
    rw [hsort u hu] at htruth
    exact absurd htruth (by decide)
  · intro u hu hnumber
    exact absurd (hsort u hu) hnumber

theorem canonical_truth {name : String} (h : name = "true" ∨ name = "false") :
    (constant name truthSort).Canonical := by
  have hsub : ∀ u : Term, u.Subterm (constant name truthSort) → u = constant name truthSort :=
    fun u hu => eq_of_subterm_of_arguments_eq_nil hu rfl
  refine ⟨rfl, ?_, fun u hu _ => ⟨name, h, hsub u hu⟩, ?_⟩
  · intro u hu hnumber
    rw [hsub u hu] at hnumber
    exact absurd hnumber (by decide : truthSort ≠ numberSort)
  · intro u hu _ htruth
    exact absurd (congrArg Term.sort (hsub u hu)) htruth

/-- In other sorts, lexical names are put before canonical arguments. -/
theorem canonical_app {operation sort : String} {arguments : List Term}
    (hnumber : sort ≠ numberSort) (htruth : sort ≠ truthSort) (hoperation : Lexical operation)
    (hsort : Lexical sort) (harguments : ∀ a ∈ arguments, a.Canonical) :
    (app operation sort arguments).Canonical := by
  constructor
  · exact allGround_iff.mpr fun a ha => (harguments a ha).ground
  · exact forall_subterm_app.mpr
      ⟨fun h => absurd h hnumber, fun a ha => (harguments a ha).numbers⟩
  · exact forall_subterm_app.mpr ⟨fun h => absurd h htruth, fun a ha => (harguments a ha).truths⟩
  · exact forall_subterm_app.mpr
      ⟨fun _ _ => ⟨hoperation, hsort⟩, fun a ha => (harguments a ha).lexical⟩

/-- The names of numbers and of truth values are lexical as well. -/
theorem Canonical.lexicalNames {term : Term} (h : term.Canonical) : term.LexicalNames := by
  intro u hu
  by_cases hnumber : u.sort = numberSort
  · obtain ⟨count, -, rfl⟩ := h.numbers u hu hnumber
    cases count with
    | zero => exact ⟨(by decide : Lexical "zero"), (by decide : Lexical "Number")⟩
    | succ count =>
      rw [ofCount_succ]
      exact ⟨(by decide : Lexical "inc"), (by decide : Lexical "Number")⟩
  · by_cases htruth : u.sort = truthSort
    · obtain ⟨name, hname, rfl⟩ := h.truths u hu htruth
      have hbool : Lexical "bool" := by decide
      rcases hname with rfl | rfl
      · exact ⟨(by decide : Lexical "true"), hbool⟩
      · exact ⟨(by decide : Lexical "false"), hbool⟩
    · exact h.lexical u hu hnumber htruth

/-- What a printer writes in a canonical term is a name, and with the literals this
    name is read as what it was written for. -/
theorem Canonical.printed {term : Term} (h : term.Canonical) {u : Term} (hu : u.Subterm term)
    {print : Printer} (hprint : print ∈ Printers.standard[u.sort]?) :
    Lexical (print u) ∧ ∀ sort, Literal.read? Literal.standard (print u) sort = some u := by
  rcases Printers.mem_standard.mp hprint with ⟨hsort, rfl⟩ | ⟨hsort, rfl⟩
  · obtain ⟨count, hcount, rfl⟩ := h.numbers u hu hsort
    rw [Printer.number_ofCount]
    exact ⟨lexical_toString count, Literal.read?_toString hcount⟩
  · obtain ⟨name, hname, rfl⟩ := h.truths u hu hsort
    have hlexical := h.lexicalNames _ hu
    exact ⟨hlexical.1, Literal.read?_truth hname⟩

/-- A canonical term is read back from its text, if the sort that is left out is the
    default. -/
theorem Canonical.parse_renderWith {term : Term} (h : term.Canonical) {defaultSort : String}
    {omitted : Option String} (homitted : ∀ sort ∈ omitted, sort = defaultSort) :
    parse (term.renderWith omitted Printers.standard) defaultSort Literal.standard = .ok term := by
  have hlexical : ∀ u : Term, u.Subterm term → u.isApplication = true →
      ∀ print ∈ Printers.standard[u.sort]?, Lexical (print u) :=
    fun u hu _ print hprint => (h.printed hu hprint).1
  have hspells := prints_renderWith omitted h.lexicalNames hlexical [] [] rfl .nil
  have hread : Scope.reading ⟨defaultSort, none, Literal.standard⟩
      (term.phraseWith omitted Printers.standard) = term := by
    refine Scope.reading_phraseWith homitted ?_ ?_
    · -- there are no variables
      intro u hu hvariable
      have happlication := isApplication_of_isGround h.ground u hu
      cases u with
      | app => simp [isVariable] at hvariable
      | var => simp [isApplication] at happlication
    · intro u hu _ print hprint
      exact Scope.nameTerm_of_literal ((h.printed hu hprint).2 defaultSort)
  refine parse_eq_ok_iff.mpr ⟨term.phraseWith omitted Printers.standard, ?_, hread⟩
  simpa using hspells

end Term

/-- A canonical term that is printed with the printers of numbers and truth values is
    read back with their literals: under any default sort when all sorts are written,
    and under the one left out otherwise. -/
theorem printed_canonical_parses_back {term : Term} (h : term.Canonical) (defaultSort : String) :
    Term.parse (term.renderWith (some defaultSort) Printers.standard) defaultSort
        Literal.standard = .ok term ∧
      Term.parse (term.renderWith none Printers.standard) defaultSort Literal.standard =
        .ok term := by
  constructor
  · exact h.parse_renderWith (by simp)
  · exact h.parse_renderWith (by simp)

/-- A pair of a number and of a list with a truth value. The operation `2` is no
    numeral, since a parenthesis follows it. -/
theorem pair_parses_back :
    let term : Term := .app "pair" "Pair"
      [.ofCount 12, .app "2" "List" [.constant "true" truthSort, .constant "nil" "List"]]
    term.Canonical ∧
      term.renderWith (some "List") Printers.standard = "Pair:pair(12, 2(true, nil()))" ∧
      Term.parse "Pair:pair(12, 2(true, nil()))" "List" Literal.standard = .ok term ∧
      term.renderWith none Printers.standard = "Pair:pair(12, List:2(true, List:nil()))" ∧
      Term.parse "Pair:pair(12, List:2(true, List:nil()))" "List" Literal.standard =
        .ok term := by
  intro term
  have hnil : (Term.constant "nil" "List").Canonical :=
    Term.canonical_app (by decide) (by decide) (by decide) (by decide) (by simp)
  have htrue : (Term.constant "true" truthSort).Canonical := Term.canonical_truth (.inl rfl)
  have hlist :
      (Term.app "2" "List" [.constant "true" truthSort, .constant "nil" "List"]).Canonical :=
    Term.canonical_app (by decide) (by decide) (by decide) (by decide) (by simp [htrue, hnil])
  have htwelve : (Term.ofCount 12).Canonical := Term.canonical_ofCount (by decide)
  have hterm : term.Canonical :=
    Term.canonical_app (by decide) (by decide) (by decide) (by decide) (by simp [htwelve, hlist])
  have homitted : term.renderWith (some "List") Printers.standard =
      "Pair:pair(12, 2(true, nil()))" := by cbv
  have hwritten : term.renderWith none Printers.standard =
      "Pair:pair(12, List:2(true, List:nil()))" := by cbv
  obtain ⟨hparse, hparse'⟩ := printed_canonical_parses_back hterm "List"
  rw [homitted] at hparse
  rw [hwritten] at hparse'
  exact ⟨hterm, homitted, hparse, hwritten, hparse'⟩

end Equational
