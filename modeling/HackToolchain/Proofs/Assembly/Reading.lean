import HackToolchain.Assembly.Mnemonic
import HackToolchain.Proofs.Assembly.CleanLines
import HackToolchain.Proofs.Except
import Mathlib.Data.List.TakeWhile

/-! What the lines of an assembly source read as, and the lines that read back from their own
text. -/

namespace HackToolchain

/-! ### Characters of symbols and literals -/

theorem isBlank_range {c : Char} (h : Text.isBlank c) : c.toNat ≤ 32 ∨ 133 ≤ c.toNat := by
  simp [Text.isBlank, Text.blankRanges] at h
  omega

theorem isAlphanum_range {c : Char} (h : c.isAlphanum) : 48 ≤ c.toNat ∧ c.toNat ≤ 122 := by
  have ranges : ((decide (c.val ≥ 65 ∧ c.val ≤ 90) || (c.val ≥ 97 && c.val ≤ 122)) ||
      (c.val ≥ 48 && c.val ≤ 57)) = true := h
  simp only [Bool.or_eq_true, Bool.and_eq_true, decide_eq_true_eq, ge_iff_le,
    UInt32.le_iff_toNat_le, Char.toNat_val, UInt32.reduceToNat] at ranges
  omega

theorem isSymbolChar_range {c : Char} (h : isSymbolChar c) :
    36 ≤ c.toNat ∧ c.toNat ≤ 122 := by
  simp only [isSymbolChar, Bool.or_eq_true, List.contains_eq_mem, decide_eq_true_eq,
    List.mem_cons, List.not_mem_nil, or_false] at h
  rcases h with h | rfl | rfl | rfl | rfl
  · have := isAlphanum_range h
    omega
  all_goals decide

/-- Symbols have no slash and no parenthesis. -/
theorem isSymbolChar_ne {c mark : Char} (h : isSymbolChar c) (hMark : isSymbolChar mark = false) :
    c ≠ mark := by
  rintro rfl
  simp [hMark] at h

theorem isSymbolChar_not_blank {c : Char} (h : isSymbolChar c) : Text.isBlank c = false := by
  rw [Bool.eq_false_iff]
  intro blank
  have := isSymbolChar_range h
  have := isBlank_range blank
  omega

theorem isSymbolChar_of_isDigit {c : Char} (h : c.isDigit) : isSymbolChar c := by
  simp [isSymbolChar, Char.isAlphanum, h]

theorem isSymbol_all {name : List Char} (h : isSymbol name) : ∀ c ∈ name, isSymbolChar c := by
  cases name with
  | nil => simp [isSymbol] at h
  | cons c rest => exact List.all_eq_true.mp (by simp [isSymbol] at h ⊢; exact h.2)

theorem isSymbol_ne_nil {name : List Char} (h : isSymbol name) : name ≠ [] := by
  rintro rfl
  simp [isSymbol] at h

theorem isSymbol_head {c : Char} {rest : List Char} (h : isSymbol (c :: rest)) :
    c.isDigit = false := by
  simp [isSymbol] at h
  exact h.1

/-! ### Reading operands -/

theorem readSymbol_eq_ok {chars : List Char} {name : String} :
    readSymbol chars = .ok name ↔ isSymbol chars ∧ chars = name.toList := by
  rw [readSymbol]
  split <;> simp_all
  constructor
  · rintro rfl
    simp
  · rintro rfl
    simp

theorem readLiteral_eq_ok {chars : List Char} {value : Nat} :
    readLiteral chars = .ok value ↔ Text.natural? chars = some value ∧ value < 65536 := by
  rw [readLiteral]
  split
  · next number found =>
    rw [found]
    split <;> grind
  · next absent => simp [absent]

theorem natural?_head {chars : List Char} {value : Nat} (h : Text.natural? chars = some value) :
    ∃ c rest, chars = c :: rest ∧ c.isDigit := by
  rw [Text.natural?] at h
  split at h
  · next digits =>
    cases chars with
    | nil => simp at digits
    | cons c rest => exact ⟨c, rest, rfl, by simp at digits; exact digits.1⟩
  · contradiction

/-- An operand is a literal if it starts with a digit, and a symbol if it is one. -/
theorem Operand.read_eq_ok {chars : List Char} {operand : Operand} :
    Operand.read chars = .ok operand ↔
      (∃ value, operand = .literal value ∧ Text.natural? chars = some value ∧ value < 65536) ∨
        ∃ name, operand = .symbol name ∧ isSymbol chars ∧ chars = name.toList := by
  cases chars with
  | nil => simp [Operand.read, Except.map_eq_ok, readSymbol_eq_ok, isSymbol, Text.natural?]
  | cons c rest =>
    simp only [Operand.read, List.head?_cons]
    split
    · next digit =>
      have noSymbol : isSymbol (c :: rest) = false := by simp [isSymbol, digit]
      simp only [Except.map_eq_ok, readLiteral_eq_ok, noSymbol]
      grind
    · next other =>
      have noLiteral : ∀ value, Text.natural? (c :: rest) ≠ some value := by
        rintro value found
        obtain ⟨d, tail, same, digit⟩ := natural?_head found
        cases same
        exact other digit
      simp only [Except.map_eq_ok, readSymbol_eq_ok]
      grind

/-! ### Reading lines -/

theorem Line.read_address {operand : List Char} {line : Line} :
    Line.read ('@' :: operand) = .ok line ↔
      ∃ o, Operand.read operand = .ok o ∧ line = .instruction (.address o) := by
  simp only [Line.read, Except.map_eq_ok]
  grind

/-- A label declaration is a symbol between parentheses. -/
theorem Line.read_label {inner : List Char} {line : Line} :
    Line.read ('(' :: inner) = .ok line ↔
      ∃ name : String, inner = name.toList ++ [')'] ∧ isSymbol name.toList ∧
        line = .label name := by
  simp only [Line.read, Line.readLabel]
  split
  · next closed =>
    obtain ⟨front, rfl⟩ := List.getLast?_eq_some_iff.mp closed
    simp only [List.dropLast_concat, Except.map_eq_ok, readSymbol_eq_ok,
      List.append_cancel_right_eq]
    grind
  · next opened =>
    constructor
    · simp
    · rintro ⟨name, rfl, -⟩
      simp at opened

theorem Line.read_other {c : Char} {rest : List Char} {line : Line} (hAt : c ≠ '@')
    (hOpen : c ≠ '(') : Line.read (c :: rest) = .ok line ↔
      ∃ i, Line.readCompute (c :: rest) = .ok i ∧ line = .instruction i := by
  have : Line.read (c :: rest) = (Line.readCompute (c :: rest)).map .instruction := by
    rw [Line.read] <;> grind
  rw [this, Except.map_eq_ok]
  grind

/-! ### Mnemonics -/

theorem Mnemonic.encodeField_eq_ok {width : Nat} {field : Field}
    {table : List (String × BitVec width)} {text : String} {bits : BitVec width} :
    encodeField field table text = .ok bits ↔ table.lookup text = some bits := by
  rw [encodeField]
  cases table.lookup text <;> simp [Option.elim]

theorem Mnemonic.encode_eq_ok {dest comp jmp : String} {word : Word} :
    encode dest comp jmp = .ok word ↔ ∃ c d j, computations.lookup comp = some c ∧
      destinations.lookup dest = some d ∧ jumps.lookup jmp = some j ∧
        word = 0b111#3 ++ c ++ d ++ j := by
  simp only [encode, Except.bind_eq_ok, computation, destination, jump, encodeField_eq_ok, pure,
    Except.pure, Except.ok.injEq]
  grind

/-- The three parts of a compute instruction are all in the vocabulary. -/
def Mnemonic.Known (dest comp jmp : String) : Prop := ∃ word, encode dest comp jmp = .ok word

/-- A character that separates no parts of a line, starts no line of another kind, and survives
the cleaning of a line. -/
def isMnemonicChar (c : Char) : Bool :=
  ! ['=', ';', '/', '@', '('].contains c && ! Text.isBlank c

namespace Mnemonic

variable {dest comp jmp : String}

theorem mem_of_lookup {width : Nat} {table : List (String × BitVec width)} {text : String}
    {bits : BitVec width} (h : table.lookup text = some bits) : (text, bits) ∈ table := by
  obtain ⟨before, after, rfl, -⟩ := List.lookup_eq_some_iff.mp h
  simp

theorem Known.dest_chars (h : Known dest comp jmp) : ∀ c ∈ dest.toList, isMnemonicChar c := by
  obtain ⟨word, encoded⟩ := h
  obtain ⟨_, bits, _, _, found, _⟩ := encode_eq_ok.mp encoded
  have all : ∀ entry ∈ destinations, entry.1.toList.all isMnemonicChar := by decide
  exact List.all_eq_true.mp (all _ (mem_of_lookup found))

theorem Known.comp_chars (h : Known dest comp jmp) :
    comp.toList ≠ [] ∧ ∀ c ∈ comp.toList, isMnemonicChar c := by
  obtain ⟨word, encoded⟩ := h
  obtain ⟨bits, _, _, found, _⟩ := encode_eq_ok.mp encoded
  have all : ∀ entry ∈ computations, entry.1.toList ≠ [] ∧ entry.1.toList.all isMnemonicChar := by
    decide
  exact (all _ (mem_of_lookup found)).imp_right List.all_eq_true.mp

theorem Known.jump_chars (h : Known dest comp jmp) : ∀ c ∈ jmp.toList, isMnemonicChar c := by
  obtain ⟨word, encoded⟩ := h
  obtain ⟨_, _, bits, _, _, found, _⟩ := encode_eq_ok.mp encoded
  have all : ∀ entry ∈ jumps, entry.1.toList.all isMnemonicChar := by decide
  exact List.all_eq_true.mp (all _ (mem_of_lookup found))

end Mnemonic

/-! ### Compute lines -/

theorem cut?_of_not_mem {mark : Char} {chars : List Char} (h : mark ∉ chars) :
    cut? mark chars = none := by
  have : chars.dropWhile (· != mark) = [] := by
    rw [List.dropWhile_eq_nil_iff]
    rintro c hc
    simpa using ne_of_mem_of_not_mem hc h
  rw [cut?, this]

theorem cut?_append {mark : Char} {before : List Char} (h : mark ∉ before) (rest : List Char) :
    cut? mark (before ++ mark :: rest) = some (before, rest) := by
  have keep : ∀ c ∈ before, (c != mark) = true := fun c hc => by
    simpa using ne_of_mem_of_not_mem hc h
  rw [cut?, List.dropWhile_append_of_pos keep, List.takeWhile_append_of_pos keep]
  simp

/-- The text of a compute instruction as characters. -/
theorem Instruction.toList_text_compute (dest comp jump : String) :
    (Instruction.compute dest comp jump).text.toList =
      (if dest.toList = [] then [] else dest.toList ++ ['=']) ++ comp.toList ++
        (if jump.toList = [] then [] else ';' :: jump.toList) := by
  simp only [Instruction.text, String.isEmpty_iff, String.toList_append]
  by_cases hd : dest = "" <;> by_cases hj : jump = "" <;> simp [hd, hj]

/-- The part before an equals sign is cut off, and without the sign it is empty. -/
theorem cut?_destination {dest rest : List Char} (hDest : '=' ∉ dest) (hRest : '=' ∉ rest) :
    (cut? '=' ((if dest = [] then [] else dest ++ ['=']) ++ rest)).getD
      ([], (if dest = [] then [] else dest ++ ['=']) ++ rest) = (dest, rest) := by
  split
  · next empty => simp [empty, cut?_of_not_mem hRest]
  · simp [cut?_append hDest]

theorem cut?_jump {comp jump : List Char} (hComp : ';' ∉ comp) :
    (cut? ';' (comp ++ if jump = [] then [] else ';' :: jump)).getD
      (comp ++ (if jump = [] then [] else ';' :: jump), []) = (comp, jump) := by
  split
  · next empty => simp [empty, cut?_of_not_mem hComp]
  · simp [cut?_append hComp]

theorem not_mem_of_isMnemonicChar {chars : List Char} (h : ∀ c ∈ chars, isMnemonicChar c)
    (mark : Char) (hMark : isMnemonicChar mark = false) : mark ∉ chars := by
  intro inside
  have := h mark inside
  simp [hMark] at this

theorem readCompute_text {dest comp jump : String} (known : Mnemonic.Known dest comp jump) :
    Line.readCompute (Instruction.compute dest comp jump).text.toList =
      .ok (.compute dest comp jump) := by
  obtain ⟨comp_ne, comp_all⟩ := known.comp_chars
  have hDest := not_mem_of_isMnemonicChar known.dest_chars '=' (by decide)
  have hComp := not_mem_of_isMnemonicChar comp_all '=' (by decide)
  have hJump := not_mem_of_isMnemonicChar known.jump_chars '=' (by decide)
  have hCut := not_mem_of_isMnemonicChar comp_all ';' (by decide)
  have hRest : '=' ∉ comp.toList ++ if jump.toList = [] then [] else ';' :: jump.toList := by
    split <;> simp [hComp, hJump]
  rw [Instruction.toList_text_compute, Line.readCompute, List.append_assoc,
    cut?_destination hDest hRest]
  simp only [cut?_jump hCut]
  simp [comp_ne]

/-! ### Lines that read back -/

/-- A line that the assembler reads back from its text. -/
def Line.Legible : Line → Prop
  | .instruction (.address (.literal value)) => value < 65536
  | .instruction (.address (.symbol name)) => isSymbol name.toList
  | .instruction (.compute dest comp jump) => Mnemonic.Known dest comp jump
  | .label name => isSymbol name.toList

/-- The text of a line has no slash and no white space, so that cleaning it changes nothing. -/
def Line.Plain (line : Line) : Prop :=
  line.text.toList ≠ [] ∧ ∀ c ∈ line.text.toList, c ≠ '/' ∧ Text.isBlank c = false

theorem Line.Plain.feed_not_mem {line : Line} (h : line.Plain) : '\n' ∉ line.text.toList :=
  fun inside => absurd (h.2 _ inside).2 (by decide)

theorem Line.Plain.clean {line : Line} (h : line.Plain) :
    Text.clean line.text.toList = line.text.toList := by
  rw [Text.clean_eq_unspaced fun inside => (h.2 _ inside).1 rfl,
    Text.unspaced_eq_self fun c hc => (h.2 c hc).2]

theorem Line.Plain.cleanLines {line : Line} (h : line.Plain) :
    Text.cleanLines line.text.toList = [line.text.toList] := by
  rw [Text.cleanLines_of_not_mem h.feed_not_mem, h.clean, if_neg h.1]

namespace Line

theorem toList_text_literal (value : Nat) :
    (instruction (.address (.literal value))).text.toList = '@' :: Nat.toDigits 10 value := by
  simp [text, Instruction.text, Operand.text]

theorem toList_text_symbol (name : String) :
    (instruction (.address (.symbol name))).text.toList = '@' :: name.toList := by
  simp [text, Instruction.text, Operand.text]

theorem toList_text_label (name : String) :
    (label name).text.toList = '(' :: (name.toList ++ [')']) := by
  simp [text]

/-- The characters of a symbol are kept when its line is cleaned. -/
theorem plain_of_isSymbolChar {c : Char} (h : isSymbolChar c) :
    c ≠ '/' ∧ Text.isBlank c = false :=
  ⟨isSymbolChar_ne h (by decide), isSymbolChar_not_blank h⟩

theorem plain_literal (value : Nat) : (instruction (.address (.literal value))).Plain := by
  rw [Plain, toList_text_literal]
  refine ⟨by simp, List.forall_mem_cons.mpr ⟨by decide, fun c hc => ?_⟩⟩
  have digit := Nat.isDigit_of_mem_toDigits (by decide) (by decide) hc
  exact plain_of_isSymbolChar (isSymbolChar_of_isDigit digit)

theorem plain_symbol {name : String} (h : isSymbol name.toList) :
    (instruction (.address (.symbol name))).Plain := by
  rw [Plain, toList_text_symbol]
  exact ⟨by simp, List.forall_mem_cons.mpr
    ⟨by decide, fun c hc => plain_of_isSymbolChar (isSymbol_all h c hc)⟩⟩

theorem plain_label {name : String} (h : isSymbol name.toList) : (label name).Plain := by
  rw [Plain, toList_text_label]
  refine ⟨by simp, List.forall_mem_cons.mpr ⟨by decide, fun c hc => ?_⟩⟩
  rcases List.mem_append.mp hc with inside | closing
  · exact plain_of_isSymbolChar (isSymbol_all h c inside)
  · obtain rfl := List.mem_singleton.mp closing
    decide

theorem plain_compute {dest comp jump : String} (known : Mnemonic.Known dest comp jump) :
    (instruction (.compute dest comp jump)).Plain := by
  have plain : ∀ c, isMnemonicChar c → c ≠ '/' ∧ Text.isBlank c = false := by
    intro c hc
    simp [isMnemonicChar] at hc
    exact ⟨hc.1.2.2.1, hc.2⟩
  obtain ⟨comp_ne, comp_all⟩ := known.comp_chars
  rw [Plain, text, Instruction.toList_text_compute]
  refine ⟨by simp [comp_ne], fun c hc => ?_⟩
  simp only [List.mem_append] at hc
  rcases hc with (hc | hc) | hc
  · split at hc
    · simp at hc
    · rcases List.mem_append.mp hc with inside | sign
      · exact plain c (known.dest_chars c inside)
      · obtain rfl := List.mem_singleton.mp sign
        decide
  · exact plain c (comp_all c hc)
  · split at hc
    · simp at hc
    · rcases List.mem_cons.mp hc with rfl | inside
      · decide
      · exact plain c (known.jump_chars c inside)

/-- A compute line starts with its destination or, without one, with its computation. -/
theorem compute_text_head {dest comp jump : String} (known : Mnemonic.Known dest comp jump)
    {c : Char} {rest : List Char}
    (hText : (Instruction.compute dest comp jump).text.toList = c :: rest) : isMnemonicChar c := by
  obtain ⟨comp_ne, comp_all⟩ := known.comp_chars
  obtain ⟨first, more, hComp⟩ := List.exists_cons_of_ne_nil comp_ne
  rw [Instruction.toList_text_compute] at hText
  cases hDest : dest.toList with
  | nil =>
    simp [hDest, hComp] at hText
    exact hText.1 ▸ comp_all first (by simp [hComp])
  | cons d ds =>
    simp [hDest] at hText
    exact hText.1 ▸ known.dest_chars d (by simp [hDest])

theorem read_text_literal (value : Nat) :
    read (instruction (.address (.literal value))).text.toList =
      if value < 65536 then .ok (.instruction (.address (.literal value)))
      else .error (.invalidLiteral (String.ofList (Nat.toDigits 10 value))) := by
  obtain ⟨c, rest, same, digit⟩ := natural?_head (Text.natural?_toDigits value)
  rw [toList_text_literal, read, Operand.read, same, List.head?_cons]
  simp only [digit, if_true, readLiteral, ← same, Text.natural?_toDigits]
  split <;> rfl

theorem read_text {line : Line} (h : line.Legible) : read line.text.toList = .ok line := by
  match line with
  | instruction (.address (.literal value)) =>
    rw [read_text_literal, if_pos (show value < 65536 from h)]
  | instruction (.address (.symbol name)) =>
    rw [toList_text_symbol, read_address]
    exact ⟨.symbol name, Operand.read_eq_ok.mpr (.inr ⟨name, rfl, h, rfl⟩), rfl⟩
  | label name =>
    rw [toList_text_label, read_label]
    exact ⟨name, rfl, h, rfl⟩
  | instruction (.compute dest comp jump) =>
    have known : Mnemonic.Known dest comp jump := h
    have reads := readCompute_text known
    rw [text]
    generalize hText : (Instruction.compute dest comp jump).text.toList = chars at reads ⊢
    match chars with
    | [] => simp [readCompute, cut?] at reads
    | c :: rest =>
      have marks : c ≠ '@' ∧ c ≠ '(' := by
        have first := compute_text_head known hText
        simp [isMnemonicChar] at first
        exact ⟨first.1.2.2.2.1, first.1.2.2.2.2⟩
      exact (read_other marks.1 marks.2).mpr ⟨_, reads, rfl⟩

end Line

end HackToolchain
