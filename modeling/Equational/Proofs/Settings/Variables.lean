import Equational.Proofs.Except
import Equational.Proofs.Settings.Document
import Equational.Settings.Variables
import Mathlib

/-! # What variables set

    A variable holds what a line of a document holds, a number or a truth value.
    White space may be around it and is trimmed off (`Padded.trimWhiteSpace_eq`).

    Variables set the same limits as documents: those that fit in 64 bits
    (`Settings.exists_variables_iff`). Only where its variable is not set there is
    no limit.
-/

namespace Equational

/-! ## White space -/

/-- The text is the word with white space around it. -/
def Padded (word text : String) : Prop :=
  ∃ before behind : List Char, text.toList = before ++ word.toList ++ behind ∧
    (∀ c ∈ before, isWhiteSpace c) ∧ ∀ c ∈ behind, isWhiteSpace c

theorem Padded.refl (word : String) : Padded word word :=
  ⟨[], [], by simp, nofun, nofun⟩

theorem dropWhile_append_of_head? {test : Char → Bool} {front word : List Char}
    (hfront : ∀ c ∈ front, test c) (hword : ∀ c ∈ word.head?, test c = false) :
    (front ++ word).dropWhile test = word := by
  rw [List.dropWhile_append_of_pos hfront]
  cases word with
  | nil => rfl
  | cons c word => exact List.dropWhile_cons_of_neg (by simp [hword c rfl])

theorem Padded.trimWhiteSpace_eq {word text : String} (hword : Yaml.IsWord word.toList)
    (h : Padded word text) : trimWhiteSpace text.toList = word.toList := by
  obtain ⟨before, behind, htext, hbefore, hbehind⟩ := h
  obtain ⟨hne, hword⟩ := hword
  have hblank : ∀ c ∈ word.toList, isWhiteSpace c = false := by
    intro c hc
    simpa using Yaml.forall_isWordCharacter (fun c => !isWhiteSpace c) (by decide) (hword c hc)
  have hfront : (before ++ (word.toList ++ behind)).dropWhile isWhiteSpace =
      word.toList ++ behind := by
    refine dropWhile_append_of_head? hbefore ?_
    rw [List.head?_append_of_ne_nil _ hne]
    exact fun c hc => hblank c (List.mem_of_mem_head? hc)
  have hback : (behind.reverse ++ word.toList.reverse).dropWhile isWhiteSpace =
      word.toList.reverse := by
    refine dropWhile_append_of_head? (by simpa using hbehind) ?_
    exact fun c hc => hblank c (by simpa using List.mem_of_mem_head? hc)
  rw [htext, trimWhiteSpace, List.append_assoc, hfront, List.reverse_append, hback,
    List.reverse_reverse]

/-! ## Variables -/

theorem Numeral.readDigits_lt {bound value result : Nat} {characters : List Char}
    (hvalue : value < bound) (h : readDigits bound value characters = .ok result) :
    result < bound := by
  induction characters generalizing value with
  | nil =>
    cases h
    exact hvalue
  | cons c characters ih =>
    unfold readDigits at h
    split at h
    · cases h
    · split at h
      · rename_i hnext
        exact ih hnext h
      · cases h

theorem Numeral.read_lt {bound result : Nat} {characters : List Char} (hbound : 0 < bound)
    (h : read bound characters = .ok result) : result < bound := by
  unfold read at h
  split at h
  · cases h
  · cases h
  · exact readDigits_lt hbound h
  · exact readDigits_lt hbound h

namespace Settings

theorem withSteps_padded (settings : Settings) {limit : Nat} {text : String}
    (hlimit : limit < 2 ^ 64) (h : Padded (toString limit) text) :
    settings.withSteps (some text) = .ok { settings with maxRewriteSteps := some limit } := by
  have hread : Numeral.read 0x1_0000_0000_0000_0000 (toString limit).toList = .ok limit :=
    Numeral.read_toString hlimit
  rw [withSteps, h.trimWhiteSpace_eq (isWord_toString limit), hread]

theorem isWord_printText (pretty : Bool) : Yaml.IsWord (printText pretty).toList :=
  (printLine pretty).value_isWord

theorem withPrint_padded (settings : Settings) {pretty : Bool} {text : String}
    (h : Padded (printText pretty) text) :
    settings.withPrint (some text) = .ok { settings with prettyPrint := pretty } := by
  rw [withPrint, h.trimWhiteSpace_eq (isWord_printText pretty), String.ofList_toList]
  cases pretty <;> rfl

theorem lt_of_withSteps {settings : Settings} {steps : Option String}
    (h : standard.withSteps steps = .ok settings) :
    ∀ limit ∈ settings.maxRewriteSteps, limit < 2 ^ 64 := by
  cases steps with
  | none =>
    cases h
    nofun
  | some text =>
    simp only [withSteps] at h
    split at h
    · rename_i limit hread
      cases h
      intro found hfound
      cases hfound
      exact Numeral.read_lt (by decide) hread
    · cases h

theorem maxRewriteSteps_of_withPrint {settings result : Settings} {print : Option String}
    (h : settings.withPrint print = .ok result) :
    result.maxRewriteSteps = settings.maxRewriteSteps := by
  cases print with
  | none =>
    cases h
    rfl
  | some text =>
    simp only [withPrint] at h
    split at h
    · cases h
      rfl
    · split at h
      · cases h
        rfl
      · cases h

/-- The settings of variables are those whose limit, if there is one, fits in 64
    bits. -/
theorem exists_variables_iff {settings : Settings} :
    (∃ steps print, ofVariables steps print = .ok settings) ↔
      ∀ limit ∈ settings.maxRewriteSteps, limit < 2 ^ 64 := by
  constructor
  · rintro ⟨steps, print, h⟩
    obtain ⟨limited, hsteps, hprint⟩ := bind_eq_ok_iff.mp h
    rw [maxRewriteSteps_of_withPrint hprint]
    exact lt_of_withSteps hsteps
  · intro bounded
    obtain ⟨limit, pretty⟩ := settings
    refine ⟨limit.map toString, some (printText pretty), bind_eq_ok_iff.mpr ?_⟩
    refine ⟨⟨limit, true⟩, ?_, withPrint_padded _ (.refl _)⟩
    cases limit with
    | none => rfl
    | some limit => exact withSteps_padded standard (bounded limit rfl) (.refl _)

end Settings

end Equational
