import HackToolchain.Proofs.Assembly.Capacity
import HackToolchain.Proofs.Assembly.Definition
import Mathlib.Order.Bounds.Basic

/-! Where the assembler gives up on a source, said of its characters alone. Some lines cannot be
placed, others have no word. The assembler names the first line that cannot be placed, and the first
one without a word only if all lines can be placed. -/

namespace HackToolchain

/-! ### The faults of a source -/

namespace SourceText

/-- All lines of a source, blank ones included, without comments and white space. -/
def cleaned (source : String) : List (List Char) :=
  (source.toList.splitOn '\n').map fun line =>
    (beforeComment line).filter (! Text.isBlank ·)

/-- A decimal literal that fits in a word. -/
def IsLiteral (operand : List Char) : Prop :=
  operand ≠ [] ∧ operand.all Char.isDigit ∧ Nat.ofDigitChars 10 operand 0 ≤ 65535

/-- The part of a compute line between its destination and its jump. -/
def computation (line : List Char) : List Char := (cutJump (cutDestination line).2).1

/-- A literal or a symbol follows an at sign, a symbol and a closing parenthesis follow an opening
one, and any other line has a computation. -/
def Legible : List Char → Prop
  | '@' :: operand => IsLiteral operand ∨ isSymbol operand
  | '(' :: inner => inner.getLast? = some ')' ∧ isSymbol inner.dropLast
  | line => computation line ≠ []

/-- A line that cannot be placed behind some lines that are not blank: it cannot be read, it
declares a symbol that is predefined or declared before, or it is instruction line number 65536. -/
def Unplaceable (before : List (List Char)) (line : List Char) : Prop :=
  ¬ Legible line ∨
    (∃ name, line = labelLine name ∧
      (predefinedSymbols.lookup name ≠ none ∨ line ∈ before)) ∨
    isInstruction line ∧ (before.filter isInstruction).length = 65535

/-- The value of an address line can be loaded; the parts of a compute line are mnemonics. -/
def Encodable (source : List (List Char)) : List Char → Prop
  | '@' :: operand => operandValue source operand ≤ 32767
  | line =>
    (Mnemonic.destinations.lookup (String.ofList (cutDestination line).1)).isSome ∧
      (Mnemonic.computations.lookup (String.ofList (computation line))).isSome ∧
      (Mnemonic.jumps.lookup (String.ofList (cutJump (cutDestination line).2).2)).isSome

/-- The line at a position is not blank and cannot be placed. -/
def PlacementFault (all : List (List Char)) (i : Nat) : Prop :=
  ∃ line, all[i]? = some line ∧ line ≠ [] ∧
    Unplaceable ((all.take i).filter (! ·.isEmpty)) line

/-- The line at a position is an instruction without a word. -/
def EncodingFault (all : List (List Char)) (i : Nat) : Prop :=
  ∃ line, all[i]? = some line ∧ line ≠ [] ∧ isInstruction line ∧
    ¬ Encodable (all.filter (! ·.isEmpty)) line

theorem cleaned_eq (source : String) :
    cleaned source = (source.toList.splitOn '\n').map Text.clean := by
  have same : Text.clean = fun line => (beforeComment line).filter (! Text.isBlank ·) := by
    funext line
    rw [Text.clean, code_eq_beforeComment, Text.unspaced]
  rw [cleaned, same]

theorem sourceLines_eq_numbered (source : String) :
    Layout.sourceLines source = Text.numbered (! ·.isEmpty) (cleaned source) := by
  rw [Layout.sourceLines_eq, cleaned_eq]

/-! ### Lines that can be read -/

theorem lines_eq_filter (source : String) :
    lines source = (cleaned source).filter (! ·.isEmpty) := rfl

theorem natural?_lt_iff {operand : List Char} :
    (∃ value, Text.natural? operand = some value ∧ value < 65536) ↔ IsLiteral operand := by
  rw [Text.natural?, IsLiteral]
  constructor
  · rintro ⟨value, found, small⟩
    split at found
    · next digits =>
      cases found
      exact ⟨digits.1, digits.2, by omega⟩
    · contradiction
  · rintro ⟨some, digits, small⟩
    exact ⟨_, if_pos ⟨some, digits⟩, by omega⟩

theorem exists_readOperand_iff {operand : List Char} :
    (∃ o, Operand.read operand = .ok o) ↔ IsLiteral operand ∨ isSymbol operand := by
  rw [← natural?_lt_iff]
  simp only [Operand.read_eq_ok]
  constructor
  · rintro ⟨o, ⟨value, -, literal⟩ | ⟨name, -, isName, -⟩⟩
    · exact .inl ⟨value, literal⟩
    · exact .inr isName
  · rintro (⟨value, literal⟩ | isName)
    · exact ⟨_, .inl ⟨value, rfl, literal⟩⟩
    · exact ⟨_, .inr ⟨String.ofList operand, rfl, isName, String.toList_ofList.symm⟩⟩

theorem exists_readCompute_iff {line : List Char} :
    (∃ i, Line.readCompute line = .ok i) ↔ computation line ≠ [] := by
  simp only [Line.readCompute, cutDestination_eq, cutJump_eq, computation, List.isEmpty_iff]
  split
  · next empty => simp [empty]
  · next some => exact ⟨fun _ => some, fun _ => ⟨_, rfl⟩⟩

theorem exists_readLine_iff {line : List Char} :
    (∃ read, Line.read line = .ok read) ↔ Legible line := by
  match line with
  | [] =>
    have unread : ∀ read, Line.read [] ≠ .ok read := by
      simp [Line.read, Line.readCompute, cut?, Except.map]
    simp [unread, Legible, computation, cutJump, cutDestination]
  | c :: rest =>
    by_cases hAt : c = '@'
    · subst hAt
      simp only [Line.read_address, Legible, ← exists_readOperand_iff]
      grind
    · by_cases hOpen : c = '('
      · subst hOpen
        simp only [Line.read_label, Legible, List.getLast?_eq_some_iff]
        constructor
        · rintro ⟨read, name, rfl, isName, -⟩
          exact ⟨⟨name.toList, rfl⟩, by rwa [List.dropLast_concat]⟩
        · rintro ⟨⟨name, rfl⟩, isName⟩
          rw [List.dropLast_concat] at isName
          exact ⟨_, String.ofList name, by simp, by simpa using isName, rfl⟩
      · have other : Legible (c :: rest) ↔ computation (c :: rest) ≠ [] := by
          rw [Legible] <;> grind
        simp only [Line.read_other hAt hOpen, other, ← exists_readCompute_iff]
        grind

/-! ### Faults of the first pass -/

section

variable {before : List (List Char)} {line : List Char} {lines : List Line}

/-- A line is at fault behind some lines if and only if the first pass does not take it in. -/
theorem unplaceable_iff (reads : before.mapM Line.read = .ok lines)
    (placeable : Lines.Placeable lines) : Unplaceable before line ↔
      ¬ ∃ read, Line.read line = .ok read ∧ Lines.Addable lines read := by
  have size : (before.filter isInstruction).length = Lines.size lines := by
    rw [(mapM_eq_ok_iff.mp (filter_isInstruction reads)).length_eq, List.length_map, Lines.size]
  by_cases legible : Legible line
  · obtain ⟨read, reading⟩ := exists_readLine_iff.mpr legible
    have label := eq_labelLine_iff reading
    have kind := isInstruction_iff reading
    have only : (∃ other, Line.read line = .ok other ∧ Lines.Addable lines other) ↔
        Lines.Addable lines read := by
      simp [reading]
    rw [only, Unplaceable, size]
    simp only [label]
    cases read with
    | label name =>
      have same := label name
      rw [Lines.Addable, Lines.fixed?_eq_none, ← labelLine_mem reads, ← same.mpr rfl]
      simp only [legible, kind, Line.instruction?, Line.label.injEq]
      grind
    | instruction i =>
      have fits := placeable.fits
      rw [Layout.capacity] at fits
      simp only [legible, kind, Line.instruction?, Lines.Addable, Layout.capacity]
      simp
      omega
  · have unread : ¬ ∃ read, Line.read line = .ok read := fun h => legible (exists_readLine_iff.mp h)
    simp only [Unplaceable, legible, not_false_eq_true, true_or, true_iff]
    rintro ⟨read, reading, -⟩
    exact unread ⟨read, reading⟩

variable {all : List (List Char)} {layout : Layout} {e : SourceError} {i j : Nat}

/-- A fault in front is one of the lines in front. -/
theorem PlacementFault.take (h : PlacementFault all j) (inside : j < i) :
    PlacementFault (all.take i) j := by
  obtain ⟨line, found, some, fault⟩ := h
  refine ⟨line, ?_, some, ?_⟩
  · rw [List.getElem?_take_of_lt inside, found]
  · rwa [List.take_take, Nat.min_eq_left (Nat.le_of_lt inside)]

theorem not_placementFault (h : Layout.ofLines (Text.numbered (! ·.isEmpty) all) = .ok layout)
    (i : Nat) : ¬ PlacementFault all i := by
  rintro ⟨line, found, some, fault⟩
  obtain ⟨back, split⟩ := Text.exists_numbered_eq (! ·.isEmpty) found (by simpa using some)
  rw [split, Layout.ofLines, List.foldlM_append, Except.bind_eq_ok] at h
  obtain ⟨mid, first, rest⟩ := h
  rw [List.foldlM_cons, Except.bind_eq_ok] at rest
  obtain ⟨after, added, -⟩ := rest
  obtain ⟨lines, reads, describes, placeable⟩ := Layout.describes_ofLines first
  rw [Text.map_snd_numbered] at reads
  obtain ⟨read, reading, added⟩ := Except.bind_eq_ok.mp (atLine_eq_ok.mp added)
  exact (unplaceable_iff reads placeable).mp fault
    ⟨read, reading, (describes.exists_add _).mp ⟨after, added⟩⟩

/-- The first pass stops at the first line that cannot be placed. -/
theorem isLeast_placementFault
    (h : Layout.ofLines (Text.numbered (! ·.isEmpty) all) = .error e) :
    ∃ i, e.line = i + 1 ∧ IsLeast {i | PlacementFault all i} i := by
  obtain ⟨front, ⟨number, line⟩, back, mid, split, first, fails⟩ := foldlM_eq_error h
  obtain ⟨i, rfl, found, some, rfl⟩ := Text.of_numbered_eq split
  obtain ⟨lines, reads, describes, placeable⟩ := Layout.describes_ofLines first
  rw [Text.map_snd_numbered] at reads
  obtain ⟨defect, refused, rfl⟩ := atLine_eq_error.mp fails
  have stops : ¬ ∃ read, Line.read line = .ok read ∧ Lines.Addable lines read := by
    rintro ⟨read, reading, addable⟩
    obtain ⟨after, added⟩ := (describes.exists_add (i + 1)).mpr addable
    have taken : mid.addText (i + 1) line = .ok after :=
      Except.bind_eq_ok.mpr ⟨read, reading, added⟩
    cases taken.symm.trans refused
  refine ⟨i, rfl, ⟨line, found, by simpa using some, (unplaceable_iff reads placeable).mpr stops⟩,
    fun j fault => ?_⟩
  · by_contra inside
    exact not_placementFault first j (fault.take (Nat.lt_of_not_le inside))

end

/-! ### Faults of the second pass -/

theorem exists_computeWord?_iff {line : List Char} :
    (∃ word, computeWord? line = some word) ↔
      (Mnemonic.destinations.lookup (String.ofList (cutDestination line).1)).isSome ∧
        (Mnemonic.computations.lookup (String.ofList (computation line))).isSome ∧
        (Mnemonic.jumps.lookup (String.ofList (cutJump (cutDestination line).2).2)).isSome := by
  simp only [computeWord?, bind, pure, Option.bind_eq_some_iff, Option.isSome_iff_exists,
    computation]
  constructor
  · rintro ⟨_, c, comp, d, dest, j, jump, -⟩
    exact ⟨⟨d, dest⟩, ⟨c, comp⟩, ⟨j, jump⟩⟩
  · rintro ⟨⟨d, dest⟩, ⟨c, comp⟩, ⟨j, jump⟩⟩
    exact ⟨_, c, comp, d, dest, j, jump, rfl⟩

theorem exists_word?_iff {source : List (List Char)} {line : List Char} :
    (∃ word, word? source line = some word) ↔ Encodable source line := by
  by_cases address : ∃ operand, line = '@' :: operand
  · obtain ⟨operand, rfl⟩ := address
    have bound : operandValue source operand < 32768 ↔ operandValue source operand ≤ 32767 :=
      Nat.lt_succ_iff
    simp [word?, Encodable, bound]
  · have compute : word? source line = computeWord? line := by
      rw [word?]
      exact fun operand same => address ⟨operand, same⟩
    rw [compute, exists_computeWord?_iff, Encodable]
    exact fun operand same => address ⟨operand, same⟩

/-- A numbered instruction is read in a line with the same number. -/
def Transcribes (source : Nat × List Char) (entry : Nat × Instruction) : Prop :=
  source.1 = entry.1 ∧ Line.read source.2 = .ok (.instruction entry.2)

/-- The first pass keeps the instruction lines with their numbers. -/
theorem transcribes_code {numbered : List (Nat × List Char)} {layout : Layout}
    (h : Layout.ofLines numbered = .ok layout) :
    List.Forall₂ Transcribes (numbered.filter fun entry => isInstruction entry.2)
      layout.code.toList := by
  induction numbered using List.reverseRecOn generalizing layout with
  | nil =>
    cases h
    exact .nil
  | append_singleton front last ih =>
    obtain ⟨number, line⟩ := last
    obtain ⟨mid, before, added⟩ := foldlM_snoc_eq_ok.mp h
    obtain ⟨read, reading, added⟩ := Except.bind_eq_ok.mp (atLine_eq_ok.mp added)
    have kind := isInstruction_iff reading
    have earlier := ih before
    rw [List.filter_append]
    cases read with
    | label name =>
      obtain ⟨symbols, -, rfl⟩ := Except.map_eq_ok.mp added
      rw [List.filter_cons_of_neg (by simp [kind, Line.instruction?]), List.filter_nil,
        List.append_nil]
      exact earlier
    | instruction i =>
      rw [List.filter_cons_of_pos (by simp [kind, Line.instruction?]), List.filter_nil]
      rw [Layout.add] at added
      split at added
      · cases added
        rw [Array.toList_push]
        exact List.rel_append earlier (.cons ⟨rfl, reading⟩ .nil)
      · cases added

section

variable {all : List (List Char)} {lines : List Line} {i : Instruction} {line : List Char}

theorem exists_encode_iff (reads : all.mapM Line.read = .ok lines) (inside : line ∈ all)
    (read : Line.read line = .ok (.instruction i)) :
    (∃ word, i.encode (Lines.address lines) = .ok word) ↔ Encodable all line := by
  simp only [← exists_word?_iff, word?_eq reads inside read]

theorem filter_numbered (keep keep' : List Char → Bool) (all : List (List Char)) :
    (Text.numbered keep all).filter (fun entry => keep' entry.2) =
      Text.numbered (fun line => keep' line && keep line) all :=
  List.filter_filter ..

variable {source : String} {layout : Layout} {e : SourceError}

/-- The second pass stops at the first instruction line without a word. -/
theorem isLeast_encodingFault (placed : Layout.ofSource source = .ok layout)
    (fails : Assembly.ofLayout layout = .error e) :
    ∃ i, e.line = i + 1 ∧ IsLeast {i | EncodingFault (cleaned source) i} i := by
  rw [Layout.ofSource_eq, sourceLines_eq_numbered] at placed
  obtain ⟨lines, reads, describes, placeable⟩ := Layout.describes_ofLines placed
  rw [Text.map_snd_numbered] at reads
  have transcribes := transcribes_code placed
  rw [filter_numbered] at transcribes
  rw [Assembly.ofLayout_eq] at fails
  obtain ⟨front, ⟨number, i⟩, back, mid, split, first, fails⟩ := foldlM_eq_error fails
  obtain ⟨defect, refused, rfl⟩ := atLine_eq_error.mp fails
  have whole : Lines.code lines = front.map (·.2) ++ i :: back.map (·.2) := by
    rw [← describes.code, split, List.map_append, List.map_cons]
  have described := Assembly.describes_ofCode (Assembly.describes_start describes) whole first
  have unencodable : ¬ ∃ word, i.encode (Lines.address lines) = .ok word := by
    rintro ⟨word, encoded⟩
    have added := described.add_eq whole
    rw [encoded] at added
    cases added.symm.trans refused
  have encodable : ∀ entry ∈ front, ∃ word, entry.2.encode (Lines.address lines) = .ok word :=
    fun entry inside => exists_mapM_eq_ok.mp ⟨_, described.words⟩ _ (List.mem_map_of_mem inside)
  -- The lines that the instructions before were read from are those before the line.
  rw [split] at transcribes
  have earlier := List.forall₂_take_append _ _ _ transcribes
  obtain ⟨⟨_, line⟩, later, ⟨rfl, reading⟩, -, rest⟩ :=
    List.forall₂_cons_right_iff.mp (List.forall₂_drop_append _ _ _ transcribes)
  have numbered := List.take_append_drop front.length
    (Text.numbered (fun line => isInstruction line && ! line.isEmpty) (cleaned source))
  rw [rest] at numbered
  obtain ⟨i, same, found, kept, before⟩ := Text.of_numbered_eq numbered.symm
  rw [before] at earlier
  rw [Bool.and_eq_true] at kept
  have written : ∀ {line : List Char}, line ∈ cleaned source → line ≠ [] →
      line ∈ (cleaned source).filter (! ·.isEmpty) := by
    intro line inside some
    exact List.mem_filter.mpr ⟨inside, by simpa using some⟩
  have some : line ≠ [] := by simpa using kept.2
  refine ⟨i, same, ⟨line, found, some, kept.1, fun encodes => ?_⟩, fun j fault => ?_⟩
  · have inside := written (List.mem_of_getElem? found) some
    exact unencodable ((exists_encode_iff reads inside reading).mpr encodes)
  · obtain ⟨line, found, some, kind, stuck⟩ := fault
    by_contra less
    have less := Nat.lt_of_not_le less
    rw [← List.getElem?_take_of_lt less] at found
    obtain ⟨_, split⟩ := Text.exists_numbered_eq
      (fun line => isInstruction line && ! line.isEmpty) found (by simp [kind, some])
    obtain ⟨entry, inside, -, reading⟩ := exists_of_mem_forall₂ earlier
      (show (j + 1, line) ∈ _ by rw [split]; simp)
    have inside' := written (List.mem_of_mem_take (List.mem_of_getElem? found)) some
    exact stuck ((exists_encode_iff reads inside' reading).mp (encodable entry inside))

theorem not_encodingFault {image : Image} (h : assemble source = .ok image) (i : Nat) :
    ¬ EncodingFault (cleaned source) i := by
  rintro ⟨line, found, some, kind, stuck⟩
  obtain ⟨lines, reads, -, encoded⟩ := assemble_eq_ok_iff.mp h
  rw [readSource, cleanLines_eq_lines, lines_eq_filter] at reads
  have inside : line ∈ (cleaned source).filter (! ·.isEmpty) :=
    List.mem_filter.mpr ⟨List.mem_of_getElem? found, by simpa using some⟩
  obtain ⟨read, among, reading⟩ := exists_of_mem_forall₂ (mapM_eq_ok_iff.mp reads) inside
  have isSome := (isInstruction_iff reading).mp kind
  cases read with
  | label name => cases isSome
  | instruction i =>
    exact stuck ((exists_encode_iff reads inside reading).mp
      (exists_mapM_eq_ok.mp ⟨_, encoded⟩ i (Lines.mem_code.mpr among)))

end

/-- A source assembles if and only if no line is at fault, and otherwise the error names the first
line that cannot be placed or, if all can be, the first instruction without a word. -/
theorem assemble_reports_first_fault (source : String) :
    ((∃ image, assemble source = .ok image) ↔
      ∀ i, ¬ PlacementFault (cleaned source) i ∧ ¬ EncodingFault (cleaned source) i) ∧
    ∀ e, assemble source = .error e → ∃ i, e.line = i + 1 ∧
      (IsLeast {i | PlacementFault (cleaned source) i} i ∨
        (∀ j, ¬ PlacementFault (cleaned source) j) ∧
          IsLeast {i | EncodingFault (cleaned source) i} i) := by
  have fails : ∀ e, assemble source = .error e → ∃ i, e.line = i + 1 ∧
      (IsLeast {i | PlacementFault (cleaned source) i} i ∨
        (∀ j, ¬ PlacementFault (cleaned source) j) ∧
          IsLeast {i | EncodingFault (cleaned source) i} i) := by
    intro e h
    rcases Except.bind_eq_error.mp (Except.map_eq_error.mp h) with first | ⟨layout, placed, second⟩
    · rw [Layout.ofSource_eq, sourceLines_eq_numbered] at first
      obtain ⟨i, at_line, least⟩ := isLeast_placementFault first
      exact ⟨i, at_line, .inl least⟩
    · obtain ⟨i, at_line, least⟩ := isLeast_encodingFault placed second
      rw [Layout.ofSource_eq, sourceLines_eq_numbered] at placed
      exact ⟨i, at_line, .inr ⟨not_placementFault placed, least⟩⟩
  refine ⟨⟨?_, fun none => ?_⟩, fails⟩
  · rintro ⟨image, h⟩ i
    obtain ⟨assembly, runs, -⟩ := Except.map_eq_ok.mp h
    obtain ⟨layout, placed, -⟩ := Except.bind_eq_ok.mp runs
    rw [Layout.ofSource_eq, sourceLines_eq_numbered] at placed
    exact ⟨not_placementFault placed i, not_encodingFault h i⟩
  · cases h : assemble source with
    | ok image => exact ⟨image, rfl⟩
    | error e =>
      obtain ⟨i, -, least | ⟨-, least⟩⟩ := fails e h
      · exact absurd least.1 (none i).1
      · exact absurd least.1 (none i).2

/-- The unknown computation in the first line is not what the assembler reports. -/
theorem assemble_reports_unterminatedLabel :
    assemble "D=Q\n\n// note\n(X\n" = .error ⟨4, .unterminatedLabel "(X"⟩ ∧
      EncodingFault (cleaned "D=Q\n\n// note\n(X\n") 0 ∧
      IsLeast {i | PlacementFault (cleaned "D=Q\n\n// note\n(X\n") i} 3 := by
  have fails : assemble "D=Q\n\n// note\n(X\n" = .error ⟨4, .unterminatedLabel "(X"⟩ := by rfl
  have unknown : EncodingFault (cleaned "D=Q\n\n// note\n(X\n") 0 :=
    ⟨['D', '=', 'Q'], by rfl, by decide, by decide, fun encodes => absurd encodes.2.1 (by decide)⟩
  refine ⟨fails, unknown, ?_⟩
  obtain ⟨i, at_line, least | ⟨-, least⟩⟩ := (assemble_reports_first_fault _).2 _ fails
  · cases at_line
    exact least
  · cases at_line
    cases least.2 unknown

end SourceText

end HackToolchain
