import HackToolchain.Proofs.Command.Grammar
import Mathlib.Data.Nat.Digits.Defs

/-! Literals and words as numerals. A literal has the value of its decimal digits, and every word of
machine code is a line of sixteen binary digits, from which it can be read back. -/

namespace HackToolchain

namespace Text

/-! ### Values of numerals -/

/-- One or more digits to a base, which is ten at most. -/
def IsNumeral (base : Nat) (digits : List Char) : Prop :=
  digits ≠ [] ∧ ∀ c ∈ digits, '0'.toNat ≤ c.toNat ∧ c.toNat < '0'.toNat + base

theorem isNumeral_iff (base : Nat) (digits : List Char) : IsNumeral base digits ↔
    digits ≠ [] ∧ digits.all fun c => '0'.toNat ≤ c.toNat ∧ c.toNat < '0'.toNat + base := by
  simp only [IsNumeral, List.all_eq_true, decide_eq_true_eq]

instance (base : Nat) : DecidablePred (IsNumeral base) := fun digits =>
  decidable_of_iff _ (isNumeral_iff base digits).symm

/-- The value of a numeral: the sum of its digits, each times a power of the base for its place. -/
def numeralValue (base : Nat) (digits : List Char) : Nat :=
  Nat.ofDigits base (digits.reverse.map fun c => c.toNat - '0'.toNat)

theorem numeralValue_snoc (base : Nat) (front : List Char) (last : Char) :
    numeralValue base (front ++ [last]) =
      (last.toNat - '0'.toNat) + base * numeralValue base front := by
  simp only [numeralValue, List.reverse_append, List.reverse_singleton, List.singleton_append,
    List.map_cons, Nat.ofDigits_cons]

/-- The reader goes from the first digit to the last and multiplies what it has by the base at each,
so the induction is from the end. -/
theorem ofDigitChars_eq_numeralValue (base : Nat) (digits : List Char) :
    Nat.ofDigitChars base digits 0 = numeralValue base digits := by
  induction digits using List.reverseRecOn with
  | nil => rfl
  | append_singleton front last ih =>
    rw [Nat.ofDigitChars_append, Nat.ofDigitChars_cons, Nat.ofDigitChars_nil, ih,
      numeralValue_snoc, Nat.add_comm]

theorem isDigit_iff (c : Char) :
    c.isDigit ↔ '0'.toNat ≤ c.toNat ∧ c.toNat < '0'.toNat + 10 := by
  have range : c.isDigit ↔ 48 ≤ c.toNat ∧ c.toNat ≤ 57 := by
    simp [Char.isDigit, UInt32.le_iff_toNat_le, Char.toNat_val]
  have zero : '0'.toNat = 48 := rfl
  rw [range, zero]
  omega

theorem spelled_iff {text : List Char} {value : Nat} :
    Spelled text value ↔ IsNumeral 10 text ∧ numeralValue 10 text = value := by
  simp only [Spelled, IsNumeral, isDigit_iff, ofDigitChars_eq_numeralValue, and_assoc,
    eq_comm (a := value)]

/-! ### Binary digits -/

/-- A number written with sixteen binary digits. -/
structure IsBinary (value : Nat) (digits : List Char) : Prop where
  length : digits.length = 16
  numeral : ∀ c ∈ digits, c = '0' ∨ c = '1'
  value : numeralValue 2 digits = value

/-- The digits up to a place have the value without the places that follow. -/
theorem numeralValue_firstBits {width : Nat} (value : BitVec width) {count : Nat}
    (inside : count ≤ width) :
    numeralValue 2 ((List.range count).map fun i => if value.getMsbD i then '1' else '0') =
      value.toNat / 2 ^ (width - count) := by
  induction count with
  | zero => exact (Nat.div_eq_of_lt value.isLt).symm
  | succ count ih =>
    have place : width - count = width - (count + 1) + 1 := by omega
    have bit : value.getMsbD count = value.toNat.testBit (width - (count + 1)) := by
      rw [BitVec.getMsbD_eq_getLsbD, BitVec.testBit_toNat, Nat.sub_add_eq, Nat.sub_right_comm]
      simp only [decide_eq_true (show count < width by omega), Bool.true_and]
    have digit : (if value.getMsbD count then '1' else '0').toNat - '0'.toNat =
        value.toNat / 2 ^ (width - (count + 1)) % 2 := by
      rw [bit, ← Nat.toNat_testBit]
      cases value.toNat.testBit (width - (count + 1)) <;> rfl
    rw [List.range_succ, List.map_append, List.map_singleton, numeralValue_snoc, ih (by omega),
      digit, place, Nat.pow_succ, ← Nat.div_div_eq_div_mul]
    exact Nat.mod_add_div _ 2

theorem numeralValue_bitChars {width : Nat} (value : BitVec width) :
    numeralValue 2 (bitChars value) = value.toNat := by
  have whole := numeralValue_firstBits value (Nat.le_refl width)
  rwa [Nat.sub_self, Nat.pow_zero, Nat.div_one] at whole

theorem isBinary_bitChars (word : Word) : IsBinary word.toNat (bitChars word) where
  length := length_bitChars word
  numeral c inside := by
    obtain ⟨i, -, rfl⟩ := List.mem_map.mp inside
    split
    · exact .inr rfl
    · exact .inl rfl
  value := numeralValue_bitChars word

theorem feed_not_mem_bitChars (word : Word) : '\n' ∉ bitChars word := by
  intro inside
  rcases (isBinary_bitChars word).numeral _ inside with zero | one
  · cases zero
  · cases one

end Text

/-! ### Machine code -/

namespace Image

theorem text_eq_unlines (image : Image) :
    image.text = unlines (image.words.toList.map fun word => Text.bits word) := by
  rw [text, unlines, List.map_map]
  rfl

theorem lines_text (image : Image) :
    Text.lines image.text.toList = image.words.toList.map Text.bitChars := by
  rw [text_eq_unlines, lines_unlines]
  · rw [List.map_map]
    exact List.map_congr_left fun word _ => String.toList_ofList
  · rw [List.forall_mem_map]
    intro word _
    show '\n' ∉ (String.ofList (Text.bitChars word)).toList
    rw [String.toList_ofList]
    exact Text.feed_not_mem_bitChars word

/-- The words are read back from the lines of the text. -/
theorem words_of_text (image : Image) :
    (Text.lines image.text.toList).map (Text.numeralValue 2) =
      image.words.toList.map BitVec.toNat := by
  rw [lines_text, List.map_map]
  exact List.map_congr_left fun word _ => Text.numeralValue_bitChars word

theorem text_injective {image other : Image} (same : image.text = other.text) :
    image = other := by
  have values : image.words.toList.map BitVec.toNat = other.words.toList.map BitVec.toNat := by
    rw [← words_of_text, ← words_of_text, same]
  have words : image.words.toList = other.words.toList :=
    List.map_injective_iff.mpr (fun _ _ => BitVec.eq_of_toNat_eq) values
  cases image
  cases other
  exact congrArg Image.mk (Array.toList_inj.mp words)

end Image

/-! ### Literals -/

theorem readLiteral_iff {text : List Char} {value : Nat} : readLiteral text = .ok value ↔
    Text.IsNumeral 10 text ∧ Text.numeralValue 10 text = value ∧ value ≤ 65535 := by
  rw [readLiteral_eq_ok, Text.natural?_eq_some, Text.spelled_iff, and_assoc, Nat.lt_succ_iff]

theorem isBinary_of_literalBits {text : List Char} {value : Nat}
    (reads : readLiteral text = .ok value) :
    ∃ bits, literalBits text = .ok bits ∧ Text.IsBinary value bits.toList := by
  obtain ⟨-, -, small⟩ := readLiteral_iff.mp reads
  refine ⟨Text.bits (BitVec.ofNat 16 value), by rw [literalBits, reads]; rfl, ?_⟩
  have binary := Text.isBinary_bitChars (BitVec.ofNat 16 value)
  rw [BitVec.toNat_ofNat, Nat.mod_eq_of_lt (by omega)] at binary
  rw [Text.bits, String.toList_ofList]
  exact binary

theorem read_literal {digits : List Char} {value : Nat} (reads : readLiteral digits = .ok value) :
    readSource ("@" ++ String.ofList digits) = .ok [.instruction (.address (.literal value))] := by
  obtain ⟨numeral, fits⟩ := readLiteral_eq_ok.mp reads
  have all : ∀ c ∈ digits, c.isDigit := fun c inside =>
    (Text.isDigit_iff c).mpr ((readLiteral_iff.mp reads).1.2 c inside)
  have text : ("@" ++ String.ofList digits).toList = '@' :: digits := by simp
  have plain : ∀ c ∈ '@' :: digits, c ≠ '/' ∧ Text.isBlank c = false :=
    List.forall_mem_cons.mpr ⟨by decide, fun c inside =>
      Line.plain_of_isSymbolChar (isSymbolChar_of_isDigit (all c inside))⟩
  have clean : Text.cleanLines ('@' :: digits) = ['@' :: digits] := by
    rw [Text.cleanLines_of_not_mem fun feed => absurd (plain _ feed).2 (by decide),
      Text.clean_eq_unspaced fun slash => (plain _ slash).1 rfl,
      Text.unspaced_eq_self fun c inside => (plain c inside).2, if_neg (List.cons_ne_nil _ _)]
  rw [readSource, text, clean]
  have line : Line.read ('@' :: digits) = .ok (.instruction (.address (.literal value))) :=
    Line.read_address.mpr ⟨_, Operand.read_eq_ok.mpr (.inl ⟨value, rfl, numeral, fits⟩), rfl⟩
  exact mapM_cons_eq_ok.mpr ⟨_, [], line, rfl, rfl⟩

/-- A literal that an address instruction can load is assembled to its value. -/
theorem assemble_literal {digits : List Char} (numeral : Text.IsNumeral 10 digits)
    (small : Text.numeralValue 10 digits ≤ 32767) :
    assemble ("@" ++ String.ofList digits) =
      .ok ⟨#[BitVec.ofNat 16 (Text.numeralValue 10 digits)]⟩ := by
  have reads : readLiteral digits = .ok (Text.numeralValue 10 digits) :=
    readLiteral_iff.mpr ⟨numeral, rfl, by omega⟩
  have room : 1 ≤ Layout.capacity := by decide
  have placeable : Lines.Placeable
      [.instruction (.address (.literal (Text.numeralValue 10 digits)))] :=
    ⟨List.nodup_nil, nofun, room⟩
  have word : encodeAddress (Text.numeralValue 10 digits) = .ok _ :=
    encodeAddress_eq_ok.mpr ⟨small, rfl⟩
  refine assemble_eq_ok_iff.mpr ⟨_, read_literal reads, placeable, ?_⟩
  exact mapM_cons_eq_ok.mpr ⟨_, [], word, rfl, rfl⟩

/-- Literals are the decimal numerals of words, and their bits have the same value in binary. The
text of machine code has one line of sixteen binary digits for each word, which tells the words; and
a literal that an address instruction can load is the word of its line. -/
theorem literals_and_words_in_binary :
    (∀ text value, readLiteral text = .ok value ↔
      Text.IsNumeral 10 text ∧ Text.numeralValue 10 text = value ∧ value ≤ 65535) ∧
    (∀ text value, readLiteral text = .ok value →
      ∃ bits, literalBits text = .ok bits ∧ Text.IsBinary value bits.toList) ∧
    (∀ image : Image, ∃ lines, image.text = unlines lines ∧
      Text.lines image.text.toList = lines.map String.toList ∧
      List.Forall₂ (fun word line => Text.IsBinary word.toNat line.toList)
        image.words.toList lines ∧
      (Text.lines image.text.toList).map (Text.numeralValue 2) =
        image.words.toList.map BitVec.toNat) ∧
    (∀ image other : Image, image.text = other.text → image = other) ∧
    ∀ digits, Text.IsNumeral 10 digits → Text.numeralValue 10 digits ≤ 32767 →
      assemble ("@" ++ String.ofList digits) =
        .ok ⟨#[BitVec.ofNat 16 (Text.numeralValue 10 digits)]⟩ := by
  refine ⟨fun _ _ => readLiteral_iff, fun _ _ => isBinary_of_literalBits, fun image => ?_,
    fun _ _ => Image.text_injective, fun _ => assemble_literal⟩
  refine ⟨_, image.text_eq_unlines, ?_, ?_, image.words_of_text⟩
  · rw [image.lines_text, List.map_map]
    exact List.map_congr_left fun word _ => String.toList_ofList.symm
  · rw [List.forall₂_map_right_iff, List.forall₂_same]
    intro word _
    rw [Text.bits, String.toList_ofList]
    exact Text.isBinary_bitChars word

/-- Zeros in front of a literal do not count. -/
theorem literals_and_words_in_binary_zerosInFront :
    readLiteral "00021".toList = .ok 21 ∧
      literalBits "00021".toList = .ok "0000000000010101" ∧
      Text.IsBinary 21 "0000000000010101".toList ∧ assemble "@00021" = .ok ⟨#[21]⟩ := by
  obtain ⟨reads, bits, -, -, assembles⟩ := literals_and_words_in_binary
  have literal : readLiteral "00021".toList = .ok 21 :=
    (reads _ 21).mpr ⟨by decide, by decide, by decide⟩
  obtain ⟨digits, found, binary⟩ := bits _ _ literal
  have same : literalBits "00021".toList = .ok "0000000000010101" := by decide
  cases same.symm.trans found
  exact ⟨literal, same, binary, assembles "00021".toList (by decide) (by decide)⟩

end HackToolchain
