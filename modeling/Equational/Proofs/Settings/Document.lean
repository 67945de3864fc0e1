import Equational.Proofs.Text.Numeral
import Equational.Proofs.Yaml.Document
import Equational.Settings.Document
import Mathlib

/-! # What a document sets

    A document of plain lines sets the limit and the use of printers by the lines
    of two names. Other lines are passed over, and the order of lines does not
    count. Where a name has no line the standard stays; where it has one, its
    value says what it **sets**; and where it has more, nothing is read
    (`Settings.ofText_document_eq_ok_iff`).

    So settings are written in two lines, from which they are read back among any
    others, as far as the limit is a number that a document can set. No other text
    sets a larger one (`Settings.exists_text_iff`).
-/

namespace Equational

/-! ## Numbers -/

namespace Yaml

theorem digit?_of_isDigit {c : Char} (h : c.isDigit) :
    digit? c = some (c.toNat - '0'.toNat) ∧ c.toNat - '0'.toNat < 10 := by
  simp only [Char.isDigit, Bool.and_eq_true, decide_eq_true_eq] at h
  have hrange : '0' ≤ c ∧ c ≤ '9' := h
  have hhigh : c.toNat ≤ 57 := hrange.2
  refine ⟨if_pos hrange, ?_⟩
  show c.toNat - 48 < 10
  omega

theorem digits?_of_isDigit {characters : List Char} (h : ∀ c ∈ characters, c.isDigit)
    (value : Nat) : digits? 10 value characters = some (Nat.ofDigitChars 10 characters value) := by
  induction characters generalizing value with
  | nil => rfl
  | cons c characters ih =>
    rw [List.forall_mem_cons] at h
    obtain ⟨hdigit, hbelow⟩ := digit?_of_isDigit h.1
    simp only [digits?, hdigit, if_pos hbelow, ih h.2]
    rfl

theorem unsigned?_of_isDigit {characters : List Char} (h : ∀ c ∈ characters, c.isDigit)
    (hne : characters ≠ []) (hzero : characters.head? = some '0' → characters = ['0']) :
    unsigned? characters = some (Nat.ofDigitChars 10 characters 0) := by
  unfold unsigned?
  split
  · simp at h
  · simp at h
  · simp at h
  · rfl
  · rename_i hone
    cases hzero rfl
    exact absurd rfl hone
  · cases characters with
    | nil => exact absurd rfl hne
    | cons c characters => exact digits?_of_isDigit h 0

/-- A number below the bound is read back from its decimal digits. -/
theorem natural?_toString {bound value : Nat} (h : value < bound) :
    natural? bound (toString value) = some value := by
  have hdigits : ∀ c ∈ (toString value).toList, c.isDigit :=
    fun c hc => Numeral.isDigit_of_mem_toString hc
  have hnumber : unsigned? (toString value).toList = some value := by
    rw [unsigned?_of_isDigit hdigits, Numeral.toList_toString, Nat.ofDigitChars_ten_toDigits]
    · rw [Numeral.toList_toString]
      exact Nat.toDigits_ne_nil
    · rw [Numeral.toList_toString]
      exact Numeral.toDigits_eq_of_head?
  unfold natural?
  split
  · rename_i rest hplus
    rw [hplus] at hdigits
    simp at hdigits
  · rw [hnumber]
    simp [h]

end Yaml

/-! ## What values set -/

namespace Settings

/-- `Sets standard meaning? values result`: where the values of a name are these,
    the result is set. Without a value it is the standard, with one it is what the
    value means. -/
inductive Sets {α : Type} (standard : α) (meaning? : String → Option α) :
    List String → α → Prop where
  | missing : Sets standard meaning? [] standard
  | given {value : String} {result : α} :
      meaning? value = some result → Sets standard meaning? [value] result

/-- The limit that a word means. -/
def limitOf? (word : String) : Option (Option Nat) :=
  if Yaml.isNull word then some none
  else (Yaml.natural? 0x1_0000_0000_0000_0000 word).map some

/-- A plain scalar without a label. -/
def plainNode (word : String) : Yaml.Node :=
  .scalar Yaml.Label.none .plain word

theorem limit?_plainNode {word : String} (hne : word ≠ "") :
    limit? (plainNode word) = limitOf? word := by
  have hempty : word.isEmpty = false := by simpa [String.isEmpty_iff] using hne
  simp [limit?, Yaml.Node.optional?, plainNode, Yaml.Label.none, hempty, limitOf?,
    Yaml.Node.natural?, Yaml.Node.valueText?]

theorem ofNodes?_eq_some_iff {limits prints : List Yaml.Node} {settings : Settings} :
    ofNodes? limits prints = some settings ↔
      ofSingle? none limit? limits = some settings.maxRewriteSteps ∧
        ofSingle? true Yaml.Node.bool? prints = some settings.prettyPrint := by
  obtain ⟨limit, pretty⟩ := settings
  constructor
  · intro h
    obtain ⟨limit', hlimit, h⟩ := Option.bind_eq_some_iff.mp h
    obtain ⟨pretty', hpretty, h⟩ := Option.bind_eq_some_iff.mp h
    cases h
    exact ⟨hlimit, hpretty⟩
  · intro h
    obtain ⟨hlimit, hpretty⟩ := h
    exact Option.bind_eq_some_iff.mpr
      ⟨limit, hlimit, Option.bind_eq_some_iff.mpr ⟨pretty, hpretty, rfl⟩⟩

theorem ofSingle?_eq_some_iff {α : Type} {standard result : α} {meaning? : String → Option α}
    {read? : Yaml.Node → Option α} {values : List String}
    (hread : ∀ value ∈ values, read? (plainNode value) = meaning? value) :
    ofSingle? standard read? (values.map plainNode) = some result ↔
      Sets standard meaning? values result := by
  match values with
  | [] =>
    constructor
    · intro h
      cases h
      exact .missing
    · rintro ⟨⟩
      rfl
  | [value] =>
    rw [List.map_singleton, ofSingle?, hread value List.mem_cons_self]
    constructor
    · exact .given
    · intro h
      cases h
      assumption
  | _ :: _ :: _ =>
    constructor
    · nofun
    · nofun

theorem bool?_plainNode (word : String) : (plainNode word).bool? = Yaml.bool? word := rfl

/-! ## Documents of lines -/

/-- The values on the lines of a name. -/
def valuesIn (name : String) (lines : List Yaml.Line) : List String :=
  (lines.filter fun line => line.name == name).map Yaml.Line.value

theorem ne_empty_of_mem_valuesIn {name value : String} {lines : List Yaml.Line}
    (h : value ∈ valuesIn name lines) : value ≠ "" := by
  obtain ⟨line, _, rfl⟩ := List.mem_map.mp h
  intro heq
  exact line.value_isWord.1 (by rw [heq]; rfl)

theorem ofNode?_lines (lines : List Yaml.Line) :
    ofNode? (.mapping Yaml.Label.none (lines.map Yaml.Line.entry)) =
      ofNodes? ((valuesIn "max_rewrite_steps" lines).map plainNode)
        ((valuesIn "pretty_print" lines).map plainNode) := by
  have hnamed : (lines.map Yaml.Line.entry).mapM (fun entry =>
      entry.1.text?.map fun name => (name, entry.2)) =
      some (lines.map fun line => (line.name, plainNode line.value)) := by
    induction lines with
    | nil => rfl
    | cons line lines ih =>
      rw [List.map_cons, List.mapM_cons, ih]
      rfl
  have hvalues : ∀ name,
      valuesOf name (lines.map fun line => (line.name, plainNode line.value)) =
        (valuesIn name lines).map plainNode := by
    intro name
    simp [valuesOf, valuesIn, List.filter_map, Function.comp_def]
  simp only [ofNode?, hnamed, bind, Option.bind, hvalues]

/-- A document of lines sets what its lines of the two names set. -/
theorem ofText_document_eq_ok_iff {lines : List Yaml.Line} {settings : Settings} :
    ofText (Yaml.Line.document lines) = .ok settings ↔
      Sets none limitOf? (valuesIn "max_rewrite_steps" lines) settings.maxRewriteSteps ∧
        Sets true Yaml.bool? (valuesIn "pretty_print" lines) settings.prettyPrint := by
  have hread : ofText (Yaml.Line.document lines) = .ok settings ↔
      ofNodes? ((valuesIn "max_rewrite_steps" lines).map plainNode)
        ((valuesIn "pretty_print" lines).map plainNode) = some settings := by
    cases lines with
    | nil =>
      have hempty : ofText (Yaml.Line.document []) = .ok standard := by cbv
      have hnodes : ofNodes? [] [] = some standard := rfl
      show _ ↔ ofNodes? [] [] = some settings
      rw [hempty, hnodes, Except.ok.injEq, Option.some.injEq]
    | cons line lines =>
      rw [ofText, ofDocument?, Yaml.Node.ofText?_document (List.cons_ne_nil _ _)]
      dsimp only
      rw [ofNode?_lines]
      split
      · rename_i found hfound
        simp [hfound]
      · rename_i hnone
        simp [hnone]
  have hlimit : ∀ value ∈ valuesIn "max_rewrite_steps" lines,
      limit? (plainNode value) = limitOf? value :=
    fun value hvalue => limit?_plainNode (ne_empty_of_mem_valuesIn hvalue)
  rw [hread, ofNodes?_eq_some_iff, ofSingle?_eq_some_iff hlimit,
    ofSingle?_eq_some_iff fun value _ => bool?_plainNode value]

example : ofText "pretty_print: false\nname: n\nmax_rewrite_steps: 500\n" =
    .ok ⟨some 500, false⟩ := by cbv

/-! ## Settings written in lines -/

theorem isWord_toString (value : Nat) : Yaml.IsWord (toString value).toList := by
  constructor
  · rw [Numeral.toList_toString]
    exact Nat.toDigits_ne_nil
  · intro c hc
    simp [Yaml.isWordCharacter, Char.isAlphanum, Numeral.isDigit_of_mem_toString hc]

/-- A limit as it is written. -/
def limitText : Option Nat → String
  | none => "null"
  | some limit => toString limit

/-- The line that sets a limit. -/
def limitLine (limit : Option Nat) : Yaml.Line where
  name := "max_rewrite_steps"
  value := limitText limit
  name_isWord := by simp [Yaml.IsWord, Yaml.isWordCharacter]
  value_isWord := by
    cases limit with
    | none => simp [limitText, Yaml.IsWord, Yaml.isWordCharacter]
    | some limit => exact isWord_toString limit
  name_length := by cbv

/-- The use of printers as it is written. -/
def printText (pretty : Bool) : String :=
  if pretty then "true" else "false"

/-- The line that sets the use of printers. -/
def printLine (pretty : Bool) : Yaml.Line where
  name := "pretty_print"
  value := printText pretty
  name_isWord := by simp [Yaml.IsWord, Yaml.isWordCharacter]
  value_isWord := by cases pretty <;> simp [printText, Yaml.IsWord, Yaml.isWordCharacter]
  name_length := by cbv

theorem isNull_toString (value : Nat) : Yaml.isNull (toString value) = false := by
  have hletters : ∀ word ∈ ["~", "null", "Null", "NULL"],
      ∃ c ∈ word.toList, c.isDigit = false := by simp
  rw [Bool.eq_false_iff]
  intro h
  obtain ⟨c, hc, hletter⟩ := hletters _ (List.contains_iff_mem.mp h)
  rw [Numeral.isDigit_of_mem_toString hc] at hletter
  cases hletter

theorem limitOf?_limitText {limit : Option Nat} (bounded : ∀ n ∈ limit, n < 2 ^ 64) :
    limitOf? (limitText limit) = some limit := by
  cases limit with
  | none => rfl
  | some n =>
    have hnumber := Yaml.natural?_toString (bounded n rfl)
    rw [limitText, limitOf?, isNull_toString]
    simpa using hnumber

theorem bool?_printText (pretty : Bool) : Yaml.bool? (printText pretty) = some pretty := by
  cases pretty <;> rfl

theorem valuesIn_of_perm (name : String) {lines others : List Yaml.Line} (h : lines.Perm others) :
    (valuesIn name lines).Perm (valuesIn name others) :=
  (h.filter _).map _

/-- Settings are read back from their two lines, wherever these stand among lines
    of other names, if a document can set their limit. -/
theorem ofText_of_perm {settings : Settings}
    (bounded : ∀ limit ∈ settings.maxRewriteSteps, limit < 2 ^ 64)
    {lines others : List Yaml.Line}
    (hothers : ∀ line ∈ others, line.name ≠ "max_rewrite_steps" ∧ line.name ≠ "pretty_print")
    (hperm : lines.Perm
      (limitLine settings.maxRewriteSteps :: printLine settings.prettyPrint :: others)) :
    ofText (Yaml.Line.document lines) = .ok settings := by
  obtain ⟨limit, pretty⟩ := settings
  have hsteps : others.filter (fun line => line.name == "max_rewrite_steps") = [] := by
    simpa [List.filter_eq_nil_iff] using fun line hline => (hothers line hline).1
  have hprints : others.filter (fun line => line.name == "pretty_print") = [] := by
    simpa [List.filter_eq_nil_iff] using fun line hline => (hothers line hline).2
  have hlimit : valuesIn "max_rewrite_steps" lines = [limitText limit] := by
    apply List.perm_singleton.mp
    have hvalues := valuesIn_of_perm "max_rewrite_steps" hperm
    simpa [valuesIn, limitLine, printLine, hsteps] using hvalues
  have hpretty : valuesIn "pretty_print" lines = [printText pretty] := by
    apply List.perm_singleton.mp
    have hvalues := valuesIn_of_perm "pretty_print" hperm
    simpa [valuesIn, limitLine, printLine, hprints] using hvalues
  rw [ofText_document_eq_ok_iff, hlimit, hpretty]
  exact ⟨.given (limitOf?_limitText bounded), .given (bool?_printText pretty)⟩

/-! ## The limits of documents -/

theorem lt_of_natural? {bound value : Nat} {node : Yaml.Node}
    (h : node.natural? bound = some value) : value < bound := by
  obtain ⟨text, _, hvalue⟩ := Option.bind_eq_some_iff.mp h
  simpa using (Option.filter_eq_some_iff.mp hvalue).2

theorem eq_of_optional? {α : Type} {read? : Yaml.Node → Option α} {node : Yaml.Node} {value : α}
    (h : node.optional? read? = some (some value)) : read? node = some value := by
  have hread : (read? node).map some = some (some value) → read? node = some value := by
    simp
  unfold Yaml.Node.optional? at h
  split at h
  · split at h
    · split at h
      · cases h
      · exact hread h
    · split at h
      · split at h
        · cases h
        · cases h
      · exact hread h
  · exact hread h

/-- No document sets a limit that does not fit in 64 bits. -/
theorem lt_of_ofText {text : String} {settings : Settings} (h : ofText text = .ok settings) :
    ∀ limit ∈ settings.maxRewriteSteps, limit < 2 ^ 64 := by
  have hstandard : ∀ limit ∈ standard.maxRewriteSteps, limit < 2 ^ 64 := nofun
  have hnode : ∀ node, ofNode? node = some settings →
      ∀ limit ∈ settings.maxRewriteSteps, limit < 2 ^ 64 := by
    intro node h
    unfold ofNode? at h
    split at h
    · obtain ⟨named, -, h⟩ := Option.bind_eq_some_iff.mp h
      obtain ⟨hlimit, -⟩ := ofNodes?_eq_some_iff.mp h
      intro limit hmem
      rw [Option.mem_def.mp hmem] at hlimit
      unfold ofSingle? at hlimit
      split at hlimit
      · cases hlimit
      · exact lt_of_natural? (eq_of_optional? hlimit)
      · cases hlimit
    · split at h
      · cases h
        exact hstandard
      · cases h
    · cases h
    · cases h
    · cases h
  unfold ofText ofDocument? at h
  split at h
  · rename_i found hfound
    cases h
    split at hfound
    · cases hfound
    · cases hfound
      exact hstandard
    · exact hnode _ hfound
  · cases h

/-- The settings of documents are those whose limit, if there is one, fits in 64
    bits. -/
theorem exists_text_iff {settings : Settings} :
    (∃ text, ofText text = .ok settings) ↔
      ∀ limit ∈ settings.maxRewriteSteps, limit < 2 ^ 64 := by
  constructor
  · rintro ⟨text, h⟩
    exact lt_of_ofText h
  · intro bounded
    have hothers : ∀ line ∈ ([] : List Yaml.Line),
        line.name ≠ "max_rewrite_steps" ∧ line.name ≠ "pretty_print" := nofun
    exact ⟨_, ofText_of_perm bounded hothers (List.Perm.refl _)⟩

end Settings

end Equational
