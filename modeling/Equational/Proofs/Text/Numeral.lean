import Equational.Text.Numeral
import Mathlib.Data.List.Basic

/-! # Decimal numerals

    The decimal digits of a number, as they are usually written, are a numeral of
    that number wherever it is below the bound. No value on the way to it is larger,
    so the bound is never met before the last digit.
-/

namespace Equational

namespace Numeral

theorem digit?_digitChar {digit : Nat} (h : digit < 10) :
    digit? digit.digitChar = some digit := by
  have hvalue : digit.digitChar.toNat = 48 + digit := Nat.toNat_digitChar_of_lt_ten h
  have hlow : '0' ≤ digit.digitChar := by
    show ('0' : Char).toNat ≤ digit.digitChar.toNat
    rw [hvalue]
    show 48 ≤ 48 + digit
    omega
  have hhigh : digit.digitChar ≤ '9' := by
    show digit.digitChar.toNat ≤ ('9' : Char).toNat
    rw [hvalue]
    show 48 + digit ≤ 57
    omega
  unfold digit?
  rw [if_pos ⟨hlow, hhigh⟩, hvalue]
  show some (48 + digit - 48) = some digit
  rw [Nat.add_sub_cancel_left]

/-- One more digit is read, if the value stays below the bound. -/
theorem readDigits_digitChar {bound value digit : Nat} (hdigit : digit < 10)
    (hbound : 10 * value + digit < bound) (rest : List Char) :
    readDigits bound value (digit.digitChar :: rest) =
      readDigits bound (10 * value + digit) rest := by
  rw [readDigits, digit?_digitChar hdigit]
  exact if_pos hbound

/-- The digits of a number lead to it, whatever follows them. -/
theorem readDigits_toDigits {bound value : Nat} (hbound : value < bound) (rest : List Char) :
    readDigits bound 0 (Nat.toDigits 10 value ++ rest) = readDigits bound value rest := by
  -- the last digit comes off the end, and the digits before it are those of a tenth
  induction value using Nat.strongRecOn generalizing rest with
  | ind value ih =>
    rw [Nat.toDigits_eq_if (by decide)]
    by_cases hsmall : value < 10
    · have hvalue : 10 * 0 + value < bound := by omega
      rw [if_pos hsmall, List.singleton_append, readDigits_digitChar hsmall hvalue]
      simp
    · have htenth : value / 10 < value := by omega
      have hdigit : value % 10 < 10 := by omega
      have hjoined : 10 * (value / 10) + value % 10 = value := by omega
      have hbelow : 10 * (value / 10) + value % 10 < bound := by omega
      rw [if_neg hsmall, List.append_assoc, ih _ htenth (by omega), List.singleton_append,
        readDigits_digitChar hdigit hbelow, hjoined]

theorem toList_toString (value : Nat) : (toString value).toList = Nat.toDigits 10 value :=
  Nat.toList_repr

theorem isDigit_of_mem_toString {value : Nat} {c : Char} (h : c ∈ (toString value).toList) :
    c.isDigit = true := by
  rw [toList_toString] at h
  exact Nat.isDigit_of_mem_toDigits (by decide) (by decide) h

/-- No number but zero has a zero in front. -/
theorem toDigits_eq_of_head? {value : Nat} (h : (Nat.toDigits 10 value).head? = some '0') :
    Nat.toDigits 10 value = ['0'] := by
  -- what is in front of the last digit is in front of a tenth
  induction value using Nat.strongRecOn with
  | ind value ih =>
    rw [Nat.toDigits_eq_if (by decide)] at h ⊢
    by_cases hsmall : value < 10
    · rw [if_pos hsmall] at h ⊢
      simpa using h
    · rw [if_neg hsmall, List.head?_append_of_ne_nil _ Nat.toDigits_ne_nil] at h
      have htenth := ih (value / 10) (by omega) h
      have hzero : value / 10 = 0 := by
        rw [← @Nat.ofDigitChars_ten_toDigits (value / 10), htenth]
        rfl
      omega

theorem toString_injective {value other : Nat} (h : toString value = toString other) :
    value = other := by
  have hdigits : Nat.toDigits 10 value = Nat.toDigits 10 other := by
    rw [← toList_toString, ← toList_toString, h]
  calc value = Nat.ofDigitChars 10 (Nat.toDigits 10 value) 0 :=
        Nat.ofDigitChars_ten_toDigits.symm
    _ = Nat.ofDigitChars 10 (Nat.toDigits 10 other) 0 := by rw [hdigits]
    _ = other := Nat.ofDigitChars_ten_toDigits

/-- Without a sign in front, all characters are read as digits. -/
theorem read_of_no_sign {bound : Nat} {characters : List Char} (hne : characters ≠ [])
    (hsign : '+' ∉ characters) : read bound characters = readDigits bound 0 characters := by
  unfold read
  split
  · exact absurd rfl hne
  · simp at hsign
  · simp at hsign
  · rfl

/-- A number below the bound is read back from its decimal digits. -/
theorem read_toString {bound value : Nat} (h : value < bound) :
    read bound (toString value).toList = .ok value := by
  have hne : (toString value).toList ≠ [] := by
    rw [toList_toString]
    exact Nat.toDigits_ne_nil
  have hsign : '+' ∉ (toString value).toList := by
    intro hmem
    have hdigit := isDigit_of_mem_toString hmem
    simp at hdigit
  have hdigits := readDigits_toDigits h []
  rw [read_of_no_sign hne hsign, toList_toString, ← List.append_nil (Nat.toDigits 10 value),
    hdigits]
  rfl

end Numeral

end Equational
