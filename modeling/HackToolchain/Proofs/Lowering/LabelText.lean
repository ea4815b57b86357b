import HackToolchain.Assembly.Symbols
import HackToolchain.Lowering.Flow
import HackToolchain.Lowering.Frame
import HackToolchain.Lowering.Location
import HackToolchain.Text.Blank
import HackToolchain.Text.Number

/-! The text of the labels that lowering makes up. Each ends in its number, with a mark before it
that is not a digit, so the number can be read back whatever the name in front is. A label that a
program declares itself has no small letter of ASCII, and every return label has. -/

namespace HackToolchain

namespace Lowering

/-! ### Numbers at the end of a text -/

/-- The number that a text ends in. -/
def number? (text : String) : Option Nat :=
  Text.natural? (text.toList.reverse.takeWhile Char.isDigit).reverse

section

variable {stem mark : String} {c : Char} {n : Nat}

/-- The digits after a character that is not one are the whole number. -/
theorem number?_marked (last : mark.toList.getLast? = some c) (plain : c.isDigit = false) :
    number? (stem ++ mark ++ toString n) = some n := by
  obtain ⟨front, split⟩ := List.getLast?_eq_some_iff.mp last
  have text : (stem ++ mark ++ toString n).toList.reverse =
      (Nat.toDigits 10 n).reverse ++ c :: (stem.toList ++ front).reverse := by
    rw [String.toList_append, String.toList_append, split, Nat.toString_eq_repr, Nat.toList_repr]
    simp
  have digits : ∀ d ∈ (Nat.toDigits 10 n).reverse, d.isDigit := by
    intro d inside
    exact Nat.isDigit_of_mem_toDigits (by decide) (by decide) (List.mem_reverse.mp inside)
  unfold number?
  rw [text, List.takeWhile_append_of_pos digits, List.takeWhile_cons, if_neg (by simp [plain]),
    List.append_nil, List.reverse_reverse, Text.natural?_toDigits]

end

@[simp] theorem number?_numbered (stem : String) (n : Nat) :
    number? (numbered stem n) = some n := by
  show number? (stem ++ "_" ++ toString n) = some n
  exact number?_marked rfl rfl

@[simp] theorem number?_returnLabel (name : String) (n : Nat) :
    number? (returnLabel name n) = some n := by
  show number? (name ++ "$ret." ++ toString n) = some n
  exact number?_marked rfl rfl

@[simp] theorem number?_staticSymbol (file : String) (n : Nat) :
    number? (staticSymbol file n) = some n := by
  show number? (file ++ "." ++ toString n) = some n
  exact number?_marked rfl rfl

/-- Stems that differ make different labels, also under one number. -/
theorem numbered_injective {stem other : String} {n : Nat}
    (same : numbered stem n = numbered other n) : stem = other := by
  unfold numbered at same
  rwa [String.append_left_inj, String.append_left_inj] at same

theorem staticSymbol_injective {file other : String} {index number : Nat}
    (same : staticSymbol file index = staticSymbol other number) :
    file = other ∧ index = number := by
  have numbers := congrArg number? same
  rw [number?_staticSymbol, number?_staticSymbol, Option.some.injEq] at numbers
  subst numbers
  unfold staticSymbol at same
  rw [String.append_left_inj, String.append_left_inj] at same
  exact ⟨same, rfl⟩

/-! ### Names that are not predefined -/

/-- A name with a character that no predefined symbol has. -/
theorem lookup_predefined {name : String} {c : Char} (inside : c ∈ name.toList)
    (absent : ∀ entry ∈ predefinedSymbols, c ∉ entry.1.toList) :
    predefinedSymbols.lookup name = none := by
  refine Option.eq_none_iff_forall_ne_some.mpr fun cell found => ?_
  obtain ⟨before, after, split, -⟩ := List.lookup_eq_some_iff.mp found
  have entry : (name, cell) ∈ predefinedSymbols := by simp [split]
  exact absent _ entry inside

theorem unfixed_numbered (stem : String) (n : Nat) :
    predefinedSymbols.lookup (numbered stem n) = none := by
  apply lookup_predefined (c := '_')
  · simp [numbered]
  · decide

theorem unfixed_returnLabel (name : String) (n : Nat) :
    predefinedSymbols.lookup (returnLabel name n) = none := by
  apply lookup_predefined (c := '$')
  · simp [returnLabel]
  · decide

theorem unfixed_staticSymbol (file : String) (index : Nat) :
    predefinedSymbols.lookup (staticSymbol file index) = none := by
  apply lookup_predefined (c := '.')
  · simp [staticSymbol]
  · decide

/-! ### Upper case -/

theorem isLower_eq_false {c : Char} (h : c.toNat < 97 ∨ 122 < c.toNat) : c.isLower = false := by
  rw [Bool.eq_false_iff]
  intro lower
  have range : (decide (97 ≤ c.toNat) && decide (c.toNat ≤ 122)) = true := lower
  rw [Bool.and_eq_true, decide_eq_true_eq, decide_eq_true_eq] at range
  omega

/-- The tables of upper case lead to no character of a range that they avoid. -/
theorem upperChar_avoids {low high : Nat} (positive : 0 < low)
    (points : ∀ entry ∈ Text.caseExpansions, ∀ point ∈ entry.2, point < low ∨ high < point)
    (runs : ∀ run ∈ Text.caseRuns,
      run.last + run.offset < low ∨ high < run.first + run.offset) {c d : Char}
    (beyond : ¬ c.toNat < 0x80) (own : c.toNat < low ∨ high < c.toNat)
    (h : d ∈ Text.upperChar c) : d.toNat < low ∨ high < d.toNat := by
  have avoids : ∀ {point : Nat}, point < low ∨ high < point →
      (Char.ofNat point).toNat < low ∨ high < (Char.ofNat point).toNat := by
    intro point outside
    by_cases valid : point.isValidChar
    · rwa [show (Char.ofNat point).toNat = point from congrArg Char.toNat (dif_pos valid)]
    · -- A number that is no character stands for the character zero.
      rw [show (Char.ofNat point).toNat = 0 from congrArg Char.toNat (dif_neg valid)]
      exact .inl positive
  unfold Text.upperChar at h
  rw [if_neg beyond] at h
  split at h
  · next expansion found =>
    obtain ⟨point, inside, rfl⟩ := List.mem_map.mp h
    obtain ⟨before, after, split, -⟩ := List.lookup_eq_some_iff.mp found
    have entry : (c.toNat, expansion) ∈ Text.caseExpansions := by simp [split]
    exact avoids (points _ entry point inside)
  · split at h
    · next run found =>
      obtain rfl := List.mem_singleton.mp h
      have inside := List.find?_some found
      unfold Text.CaseRun.contains at inside
      simp only [Bool.and_eq_true, decide_eq_true_eq] at inside
      have outside := runs run (List.mem_of_find?_eq_some found)
      apply avoids
      omega
    · obtain rfl := List.mem_singleton.mp h
      exact own

theorem isLower_upperChar {c d : Char} (h : d ∈ Text.upperChar c) : d.isLower = false := by
  by_cases ascii : c.toNat < 0x80
  · have all : ∀ n < 0x80, (Char.ofNat n).toUpper.isLower = false := by decide
    have upper := all c.toNat ascii
    rw [Char.ofNat_toNat] at upper
    rw [Text.upperChar, if_pos ascii] at h
    rwa [List.mem_singleton.mp h]
  · exact isLower_eq_false
      (upperChar_avoids (by decide) (by decide +kernel) (by decide +kernel) ascii
        (.inr (by omega)) h)

/-- A mark of ASCII that is no letter is the upper case of itself alone. -/
theorem eq_of_mem_upperChar {c mark : Char} (positive : 0 < mark.toNat) (small : mark.toNat < 0x80)
    (ascii : ∀ n < 0x80, (Char.ofNat n).toUpper = mark → Char.ofNat n = mark)
    (points : ∀ entry ∈ Text.caseExpansions, ∀ point ∈ entry.2, point ≠ mark.toNat)
    (runs : ∀ run ∈ Text.caseRuns,
      run.last + run.offset < mark.toNat ∨ mark.toNat < run.first + run.offset)
    (h : mark ∈ Text.upperChar c) : c = mark := by
  by_cases beyond : c.toNat < 0x80
  · have same := ascii c.toNat beyond
    rw [Char.ofNat_toNat] at same
    rw [Text.upperChar, if_pos beyond] at h
    exact same (List.mem_singleton.mp h).symm
  · have outside : mark.toNat < mark.toNat ∨ mark.toNat < mark.toNat :=
      upperChar_avoids positive
        (fun entry among point inside => Nat.lt_or_gt_of_ne (points entry among point inside)) runs
        beyond (.inr (by omega)) h
    omega

theorem feed_not_mem_upperChar {c : Char} (plain : c ≠ '\n') : '\n' ∉ Text.upperChar c :=
  fun h => plain (eq_of_mem_upperChar (by decide) (by decide) (by decide) (by decide +kernel)
    (by decide +kernel) h)

theorem slash_not_mem_upperChar {c : Char} (plain : c ≠ '/') : '/' ∉ Text.upperChar c :=
  fun h => plain (eq_of_mem_upperChar (by decide) (by decide) (by decide) (by decide +kernel)
    (by decide +kernel) h)

/-- Upper case brings in no white space. -/
theorem isBlank_upperChar {c d : Char} (visible : Text.isBlank c = false)
    (h : d ∈ Text.upperChar c) : Text.isBlank d = false := by
  have outside : ∀ {e : Char}, Text.isBlank e = false ↔
      ∀ range ∈ Text.blankRanges, e.toNat < range.1 ∨ range.2 < e.toNat := by
    intro e
    simp only [Text.isBlank, List.any_eq_false, Bool.and_eq_true, decide_eq_true_eq]
    exact forall_congr' fun range => forall_congr' fun _ => by omega
  by_cases beyond : c.toNat < 0x80
  · have ascii : ∀ n < 0x80, Text.isBlank (Char.ofNat n) = false →
        Text.isBlank (Char.ofNat n).toUpper = false := by decide
    have upper := ascii c.toNat beyond
    rw [Char.ofNat_toNat] at upper
    rw [Text.upperChar, if_pos beyond] at h
    rw [List.mem_singleton.mp h]
    exact upper visible
  · have points : ∀ range ∈ Text.blankRanges, ∀ entry ∈ Text.caseExpansions, ∀ point ∈ entry.2,
        point < range.1 ∨ range.2 < point := by decide +kernel
    have runs : ∀ range ∈ Text.blankRanges, ∀ run ∈ Text.caseRuns,
        run.last + run.offset < range.1 ∨ range.2 < run.first + run.offset := by decide +kernel
    have positive : ∀ range ∈ Text.blankRanges, 0 < range.1 := by decide
    exact outside.mpr fun range among => upperChar_avoids (positive range among)
      (points range among) (runs range among) beyond (outside.mp visible range among) h

theorem upperChar_ne_nil (c : Char) : Text.upperChar c ≠ [] := by
  unfold Text.upperChar
  split
  · simp
  · split
    · next expansion found =>
      obtain ⟨before, after, split, -⟩ := List.lookup_eq_some_iff.mp found
      have some : ∀ entry ∈ Text.caseExpansions, entry.2 ≠ [] := by decide +kernel
      simpa using some (c.toNat, expansion) (by simp [split])
    · split <;> simp

/-- A text of one line is one line in upper case. -/
theorem feed_not_mem_upper {name : String} (single : '\n' ∉ name.toList) :
    '\n' ∉ (Text.upper name).toList := by
  rw [Text.upper, String.toList_ofList, List.mem_flatMap]
  rintro ⟨c, inside, feed⟩
  exact feed_not_mem_upperChar (ne_of_mem_of_not_mem inside single) feed

/-- An upper case text has no small letter of ASCII. -/
theorem isLower_upper {name : String} {d : Char} (h : d ∈ (Text.upper name).toList) :
    d.isLower = false := by
  unfold Text.upper at h
  rw [String.toList_ofList, List.mem_flatMap] at h
  obtain ⟨c, -, inside⟩ := h
  exact isLower_upperChar inside

/-- No label that a program declares itself is a return label. -/
theorem upper_ne_returnLabel (name callee : String) (n : Nat) :
    Text.upper name ≠ returnLabel callee n := by
  intro same
  have small : 'r' ∈ (Text.upper name).toList := by
    rw [same, returnLabel]
    simp
  exact absurd (isLower_upper small) (by decide)

end Lowering

end HackToolchain
