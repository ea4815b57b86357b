/-! Decimal numerals: unsigned ones, and the signed and bounded ones of command operands. -/

namespace HackToolchain.Text

/-- The value of a numeral that is made of one or more ASCII digits, leading zeros allowed. -/
def natural? (digits : List Char) : Option Nat :=
  if digits ≠ [] ∧ digits.all Char.isDigit then some (Nat.ofDigitChars 10 digits 0) else none

theorem natural?_toDigits (n : Nat) : natural? (Nat.toDigits 10 n) = some n := by
  have digits : (Nat.toDigits 10 n).all Char.isDigit :=
    List.all_eq_true.mpr fun c hc => Nat.isDigit_of_mem_toDigits (by decide) (by decide) hc
  rw [natural?, if_pos ⟨Nat.toDigits_ne_nil, digits⟩,
    Nat.ofDigitChars_toDigits (by decide) (by decide)]

/-- The value of a numeral with an optional sign. -/
def integer? : List Char → Option Int
  | '+' :: digits => (natural? digits).map Int.ofNat
  | '-' :: digits => (natural? digits).map fun n => -Int.ofNat n
  | digits => (natural? digits).map Int.ofNat

/-- The value of a numeral with an optional sign in the range of `Int32`. -/
def int32? (text : List Char) : Option Int32 := do
  let value ← integer? text
  if -2147483648 ≤ value ∧ value < 2147483648 then some (Int32.ofInt value) else none

/-- The value of a numeral with an optional plus sign in the range of `UInt16`. -/
def uint16? (text : List Char) : Option UInt16 := do
  let value ← natural? (match text with | '+' :: digits => digits | digits => digits)
  if value < 65536 then some (UInt16.ofNat value) else none

end HackToolchain.Text
