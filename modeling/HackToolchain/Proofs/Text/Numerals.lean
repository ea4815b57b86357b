import HackToolchain.Text.Number
import Mathlib.Data.List.Induction

/-! Numerals as they are read and as they are printed. A numeral may have zeros in front, which its
value does not tell; without them it is what its value prints as. -/

namespace HackToolchain.Text

/-- A numeral without the zeros in front; the last digit stays. -/
def withoutZeros : List Char → List Char
  | '0' :: c :: rest => withoutZeros (c :: rest)
  | digits => digits

theorem digitChar_of_isDigit {c : Char} (h : c.isDigit) :
    ∃ value < 10, c.toNat - '0'.toNat = value ∧ Nat.digitChar value = c := by
  have range : 48 ≤ c.toNat ∧ c.toNat ≤ 57 := by
    simpa [Char.isDigit, UInt32.le_iff_toNat_le, Char.toNat_val] using h
  have all : ∀ value < 10, Nat.digitChar value = Char.ofNat (48 + value) := by decide
  refine ⟨c.toNat - 48, by omega, rfl, ?_⟩
  have whole : 48 + (c.toNat - 48) = c.toNat := by omega
  rw [all _ (by omega), whole, Char.ofNat_toNat]

/-- Digits that do not start with a zero are printed for their value, which is positive. -/
theorem toDigits_ofDigitChars_of_ne_zero {digits : List Char} (any : digits ≠ [])
    (all : ∀ c ∈ digits, c.isDigit) (first : digits.head? ≠ some '0') :
    0 < Nat.ofDigitChars 10 digits 0 ∧
      Nat.toDigits 10 (Nat.ofDigitChars 10 digits 0) = digits := by
  induction digits using List.reverseRecOn with
  | nil => exact absurd rfl any
  | append_singleton front last ih =>
    obtain ⟨value, small, number, print⟩ := digitChar_of_isDigit (all last (by simp))
    have step : Nat.ofDigitChars 10 (front ++ [last]) 0 =
        10 * Nat.ofDigitChars 10 front 0 + value := by
      rw [Nat.ofDigitChars_append, Nat.ofDigitChars_cons, Nat.ofDigitChars_nil, number]
    rw [step]
    cases front with
    | nil =>
      have positive : value ≠ 0 := by
        rintro rfl
        exact first (by rw [← print]; rfl)
      rw [Nat.ofDigitChars_nil, Nat.mul_zero, Nat.zero_add, Nat.toDigits_of_lt_base small, print]
      exact ⟨Nat.pos_of_ne_zero positive, rfl⟩
    | cons c rest =>
      obtain ⟨positive, prints⟩ := ih (by simp)
        (fun d inside => all d (List.mem_append_left _ inside)) first
      rw [← Nat.toDigits_append_toDigits (by decide) positive small, prints,
        Nat.toDigits_of_lt_base small, print]
      exact ⟨by omega, rfl⟩

/-- The value of a numeral prints as the numeral without the zeros in front. -/
theorem toDigits_ofDigitChars {digits : List Char} (any : digits ≠ [])
    (all : ∀ c ∈ digits, c.isDigit) :
    Nat.toDigits 10 (Nat.ofDigitChars 10 digits 0) = withoutZeros digits := by
  fun_induction withoutZeros digits with
  | case1 c rest ih =>
    rw [Nat.ofDigitChars_cons]
    exact ih (by simp) fun d inside => all d (List.mem_cons_of_mem _ inside)
  | case2 digits lone =>
    by_cases zero : digits.head? = some '0'
    · obtain ⟨rest, rfl⟩ := List.head?_eq_some_iff.mp zero
      cases rest with
      | nil => rfl
      | cons c rest => exact absurd rfl (lone c rest)
    · exact (toDigits_ofDigitChars_of_ne_zero any all zero).2

theorem toDigits_of_natural? {text : List Char} {value : Nat} (h : natural? text = some value) :
    Nat.toDigits 10 value = withoutZeros text := by
  rw [natural?] at h
  split at h
  · next numeral =>
    cases h
    exact toDigits_ofDigitChars numeral.1 (List.all_eq_true.mp numeral.2)
  · cases h

end HackToolchain.Text
