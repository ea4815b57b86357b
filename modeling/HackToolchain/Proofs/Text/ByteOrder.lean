import Mathlib.Data.String.Basic

/-! The order of texts. Comparing the characters of two texts one by one is comparing the bytes of
their UTF-8 encodings, because the encoding of a greater character is greater at the first byte that
differs. -/

namespace HackToolchain.Text

/-- The bytes of a text in UTF-8. -/
def bytes (text : String) : List UInt8 := text.toUTF8.data.toList

theorem bytes_eq (text : String) : bytes text = text.toList.flatMap String.utf8EncodeChar := by
  have encoded : text.toByteArray = text.toList.utf8Encode := String.utf8Encode_toList.symm
  rw [bytes, String.toUTF8, encoded, List.utf8Encode]
  simp

/-- Longer encodings start with greater bytes. Encodings of one length have the digits of their
characters to the base 64 as bytes, which are compared from the highest on. -/
theorem encode_append_lt {c d : Char} (h : c < d) (rest rest' : List UInt8) :
    String.utf8EncodeChar c ++ rest < String.utf8EncodeChar d ++ rest' := by
  rw [Char.lt_def, UInt32.lt_iff_toNat_lt] at h
  have top : d.val.toNat < 1114112 := by
    have valid := d.valid
    unfold UInt32.isValidChar Nat.isValidChar at valid
    omega
  unfold String.utf8EncodeChar
  generalize c.val.toNat = v at *
  generalize d.val.toNat = w at *
  have last : v / 64 < w / 64 ∨ v / 64 = w / 64 ∧ v % 64 < w % 64 := by omega
  have third : v / 4096 < w / 4096 ∨ v / 4096 = w / 4096 ∧ v / 64 % 64 ≤ w / 64 % 64 := by
    omega
  have second : v / 262144 < w / 262144 ∨
      v / 262144 = w / 262144 ∧ v / 4096 % 64 ≤ w / 4096 % 64 := by
    omega
  dsimp only
  split_ifs
  all_goals
    simp only [List.cons_append, List.nil_append, List.cons_lt_cons_iff, UInt8.lt_iff_toNat_lt,
      ← UInt8.toNat_inj, UInt8.toNat_ofNat']
    simp (disch := omega) only [Nat.mod_eq_of_lt]
    omega

theorem encode_lt {front back : List Char} (h : front < back) :
    front.flatMap String.utf8EncodeChar < back.flatMap String.utf8EncodeChar := by
  induction h with
  | @nil c rest =>
    obtain ⟨byte, bytes, same⟩ :=
      List.exists_cons_of_ne_nil (String.utf8EncodeChar_ne_nil (c := c))
    rw [List.flatMap_nil, List.flatMap_cons, same]
    exact List.nil_lt_cons _ _
  | cons _ ih =>
    rw [List.flatMap_cons, List.flatMap_cons]
    exact List.append_left_lt ih
  | rel less =>
    rw [List.flatMap_cons, List.flatMap_cons]
    exact encode_append_lt less _ _

theorem bytes_lt {a b : String} (h : a < b) : bytes a < bytes b := by
  rw [bytes_eq, bytes_eq]
  exact encode_lt (String.lt_iff_toList_lt.mp h)

theorem le_iff_bytes_le {a b : String} : a ≤ b ↔ bytes a ≤ bytes b := by
  constructor
  · intro le
    rcases eq_or_lt_of_le le with rfl | less
    · exact List.le_refl _
    · exact List.le_of_lt (bytes_lt less)
  · intro le
    by_contra greater
    exact List.not_lt.mpr le (bytes_lt (String.not_le.mp greater))

end HackToolchain.Text
