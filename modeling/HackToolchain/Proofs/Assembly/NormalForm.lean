import HackToolchain.Proofs.Assembly.Capacity
import HackToolchain.Proofs.Assembly.Definition
import HackToolchain.Proofs.Text.Numerals

/-! The normal form of a source, which is what its lines print as. The zeros in front of a literal,
an equals sign with nothing before it and a semicolon with nothing behind it are left out of it; a
source that assembles means the same without them. -/

namespace HackToolchain

namespace SourceText

/-! ### Normal lines -/

/-- Leaves out an equals sign that starts a line. -/
def normalStart (line : List Char) : List Char := if line.head? = some '=' then line.tail else line

/-- Leaves out a semicolon that ends a line. -/
def normalEnd (line : List Char) : List Char :=
  if line.getLast? = some ';' then line.dropLast else line

/-- What a line of the assembler prints as. -/
def normalLine : List Char → List Char
  | '@' :: operand => '@' :: if startsWithDigit operand then Text.withoutZeros operand else operand
  | '(' :: inner => '(' :: inner
  | line => normalEnd (normalStart line)

/-! ### Compute lines -/

/-- A compute line is made of its three parts, of which the first and the last may be empty with
their marks or without them. -/
theorem eq_parts_of_readCompute {text : List Char} {dest comp jump : String}
    (reads : Line.readCompute text = .ok (.compute dest comp jump)) :
    ∃ front back, text = front ++ (comp.toList ++ back) ∧
      (front = dest.toList ++ ['='] ∨ front = [] ∧ dest.toList = []) ∧
      (back = ';' :: jump.toList ∨ back = [] ∧ jump.toList = []) := by
  obtain ⟨first, rest, hFirst, front, hFront, split⟩ : ∃ first rest,
      (cut? '=' text).getD ([], text) = (first, rest) ∧ ∃ front,
        (front = first ++ ['='] ∨ front = [] ∧ first = []) ∧ text = front ++ rest := by
    by_cases sign : '=' ∈ text
    · obtain ⟨before, after, rfl, new⟩ := List.eq_append_cons_of_mem sign
      exact ⟨before, after, by rw [cut?_append new, Option.getD_some], _, .inl rfl, by simp⟩
    · exact ⟨[], text, by rw [cut?_of_not_mem sign, Option.getD_none], [], .inr ⟨rfl, rfl⟩, rfl⟩
  obtain ⟨second, third, hSecond, back, hBack, split'⟩ : ∃ second third,
      (cut? ';' rest).getD (rest, []) = (second, third) ∧ ∃ back,
        (back = ';' :: third ∨ back = [] ∧ third = []) ∧ rest = second ++ back := by
    by_cases mark : ';' ∈ rest
    · obtain ⟨before, after, rfl, new⟩ := List.eq_append_cons_of_mem mark
      exact ⟨before, after, by rw [cut?_append new, Option.getD_some], _, .inl rfl, rfl⟩
    · exact ⟨rest, [], by rw [cut?_of_not_mem mark, Option.getD_none], [], .inr ⟨rfl, rfl⟩,
        by simp⟩
  rw [Line.readCompute] at reads
  simp only [hFirst, hSecond] at reads
  split at reads
  · cases reads
  · cases reads
    simp only [String.toList_ofList]
    exact ⟨front, back, by rw [split, split'], hFront, hBack⟩

theorem normalStart_of_ne {text : List Char} (first : text.head? ≠ some '=') :
    normalStart text = text := if_neg first

theorem normalEnd_of_ne {text : List Char} (last : text.getLast? ≠ some ';') :
    normalEnd text = text := if_neg last

/-- An equals sign that starts the line is left out with an empty destination. -/
theorem normalStart_parts {front dest rest : List Char} (plain : ∀ c ∈ dest, c ≠ '=')
    (first : rest.head? ≠ some '=') (sign : front = dest ++ ['='] ∨ front = [] ∧ dest = []) :
    normalStart (front ++ rest) = (if dest = [] then [] else dest ++ ['=']) ++ rest := by
  rcases sign with rfl | ⟨rfl, rfl⟩
  · cases dest with
    | nil => rfl
    | cons d ds =>
      rw [if_neg (by simp)]
      exact normalStart_of_ne (by simpa using plain d (by simp))
  · exact normalStart_of_ne first

/-- A semicolon that ends the line is left out with an empty jump. -/
theorem normalEnd_parts {rest jump back : List Char} (last : rest.getLast? ≠ some ';')
    (plain : ∀ c ∈ jump, c ≠ ';') (mark : back = ';' :: jump ∨ back = [] ∧ jump = []) :
    normalEnd (rest ++ back) = rest ++ if jump = [] then [] else ';' :: jump := by
  rcases mark with rfl | ⟨rfl, rfl⟩
  · rcases List.eq_nil_or_concat jump with rfl | ⟨before, d, rfl⟩
    · simp [normalEnd]
    · rw [if_neg (by simp)]
      refine normalEnd_of_ne ?_
      rw [List.concat_eq_append, ← List.cons_append, ← List.append_assoc, List.getLast?_concat]
      simpa using plain d (by simp)
  · rw [List.append_nil, if_pos rfl, List.append_nil]
    exact normalEnd_of_ne last

/-- A compute line prints as its normal form. -/
theorem text_of_readCompute {text : List Char} {dest comp jump : String}
    (reads : Line.readCompute text = .ok (.compute dest comp jump))
    (known : Mnemonic.Known dest comp jump) :
    (Instruction.compute dest comp jump).text.toList = normalEnd (normalStart text) := by
  obtain ⟨front, back, rfl, hFront, hBack⟩ := eq_parts_of_readCompute reads
  obtain ⟨comp_ne, comp_all⟩ := known.comp_chars
  have noSign : ∀ c, isMnemonicChar c → c ≠ '=' ∧ c ≠ ';' := by
    rintro c plain
    simp [isMnemonicChar] at plain
    exact ⟨plain.1.1, plain.1.2.1⟩
  have first : (comp.toList ++ back).head? ≠ some '=' := by
    intro sign
    rw [List.head?_append_of_ne_nil _ comp_ne] at sign
    exact (noSign _ (comp_all _ (List.mem_of_head? sign))).1 rfl
  have last : ∀ line : List Char, (line ++ comp.toList).getLast? ≠ some ';' := by
    intro line mark
    rw [List.getLast?_append_of_ne_nil _ comp_ne] at mark
    exact (noSign _ (comp_all _ (List.mem_of_getLast? mark))).2 rfl
  rw [normalStart_parts (fun c inside => (noSign c (known.dest_chars c inside)).1) first hFront,
    ← List.append_assoc, normalEnd_parts (last _)
    (fun c inside => (noSign c (known.jump_chars c inside)).2) hBack,
    Instruction.toList_text_compute]

/-! ### Lines -/

/-- A line that is read and has a word, or is a label, reads back from what it prints as. -/
theorem legible_and_text_of_read {resolve : String → Nat} {text : List Char} {line : Line}
    (reads : Line.read text = .ok line)
    (encodes : ∀ i, line = .instruction i → ∃ word, i.encode resolve = .ok word) :
    line.Legible ∧ line.text.toList = normalLine text := by
  match text with
  | [] => simp [Line.read, Line.readCompute, cut?, Except.map] at reads
  | c :: rest =>
    by_cases hAt : c = '@'
    · subst hAt
      obtain ⟨o, readOperand, rfl⟩ := Line.read_address.mp reads
      rw [normalLine]
      rcases Operand.read_eq_ok.mp readOperand with
        ⟨value, rfl, found, small⟩ | ⟨name, rfl, isName, rfl⟩
      · rw [if_pos (startsWithDigit_of_natural? found).1, Line.toList_text_literal,
          Text.toDigits_of_natural? found]
        exact ⟨small, rfl⟩
      · rw [if_neg (by rw [startsWithDigit_of_isSymbol isName]; decide), Line.toList_text_symbol]
        exact ⟨isName, rfl⟩
    · by_cases hOpen : c = '('
      · subst hOpen
        obtain ⟨name, rfl, isName, rfl⟩ := Line.read_label.mp reads
        rw [Line.toList_text_label, normalLine]
        exact ⟨isName, rfl⟩
      · obtain ⟨i, compute, rfl⟩ := (Line.read_other hAt hOpen).mp reads
        obtain ⟨word, encoded⟩ := encodes i rfl
        obtain ⟨dest, comp, jump, rfl⟩ := exists_of_readCompute compute
        have other : normalLine (c :: rest) = normalEnd (normalStart (c :: rest)) := by
          rw [normalLine] <;> grind
        rw [other]
        exact ⟨⟨word, encoded⟩, text_of_readCompute compute ⟨word, encoded⟩⟩

theorem texts_of_mapM_read {resolve : String → Nat} {source : List (List Char)} {read : List Line}
    (reads : source.mapM Line.read = .ok read)
    (encodes : ∀ i ∈ Lines.code read, ∃ word, i.encode resolve = .ok word) :
    (∀ line ∈ read, line.Legible) ∧
      (read.map fun line => line.text.toList) = source.map normalLine := by
  induction source generalizing read with
  | nil =>
    cases reads
    exact ⟨nofun, rfl⟩
  | cons text source ih =>
    obtain ⟨line, rest, readLine, readRest, rfl⟩ := mapM_cons_eq_ok.mp reads
    obtain ⟨legible, here⟩ := legible_and_text_of_read readLine fun i same =>
      encodes i (Lines.mem_code.mpr (by simp [same]))
    obtain ⟨others, later⟩ := ih readRest fun i inside =>
      encodes i (Lines.mem_code.mpr (List.mem_cons_of_mem _ (Lines.mem_code.mp inside)))
    exact ⟨List.forall_mem_cons.mpr ⟨legible, others⟩, by rw [List.map_cons, here, later]; rfl⟩

/-! ### Sources -/

/-- The source that lines print as. -/
def printed (read : List Line) : String := unlines (read.map Line.text)

theorem lines_printed {read : List Line} (legible : ∀ line ∈ read, line.Legible) :
    lines (printed read) = read.map fun line => line.text.toList := by
  rw [← cleanLines_eq_lines, printed, cleanLines_unlines, List.flatMap_map, List.map_eq_flatMap]
  exact List.flatMap_congr fun line inside => (legible line inside).wellSpelled.plain.cleanLines

/-- The lines of a source that assembles print as a source with the same words. It is the normal
form of the source: its lines are the normal lines, and they read as the same lines again. -/
theorem assemble_printed {source : String} {image : Image} (h : assemble source = .ok image) :
    ∃ read, (lines source).mapM Line.read = .ok read ∧ assemble (printed read) = .ok image ∧
      (∀ line ∈ read, Line.read line.text.toList = .ok line) ∧
      printed read = unlines ((lines source).map fun text => String.ofList (normalLine text)) ∧
      lines (printed read) = (lines source).map normalLine ∧
      (lines (printed read)).mapM Line.read = .ok read := by
  obtain ⟨read, reads, placeable, words⟩ := assemble_eq_ok_iff.mp h
  rw [readSource, cleanLines_eq_lines] at reads
  obtain ⟨legible, texts⟩ := texts_of_mapM_read reads (exists_mapM_eq_ok.mp ⟨_, words⟩)
  have again : (lines (printed read)).mapM Line.read = .ok read := by
    rw [lines_printed legible]
    refine (mapM_read_text fun line inside => (legible line inside).wellSpelled).mpr ⟨rfl, ?_⟩
    exact fun value inside => legible _ inside
  refine ⟨read, reads, ?_, fun line inside => Line.read_text (legible line inside), ?_, ?_, again⟩
  · refine assemble_eq_ok_iff.mpr ⟨read, ?_, placeable, words⟩
    rw [readSource, cleanLines_eq_lines, again]
  · have same : read.map Line.text =
        (lines source).map fun text => String.ofList (normalLine text) := by
      rw [← Function.comp_def String.ofList, ← List.map_map, ← texts, List.map_map]
      exact List.map_congr_left fun line _ => String.ofList_toList.symm
    rw [printed, same]
  · rw [lines_printed legible, texts]

/-- Zeros in front of a literal, and marks of an empty destination and an empty jump. -/
def looseSource : String := "@007\n (LOOP) // start\n=D + 1\n@LOOP\nM=D;\n@000\n=0;JMP\n"

theorem assemble_printed_loose :
    ∃ image read, assemble looseSource = .ok image ∧
      (lines looseSource).mapM Line.read = .ok read ∧
      printed read = "@7\n(LOOP)\nD+1\n@LOOP\nM=D\n@0\n0;JMP\n" ∧
      assemble "@7\n(LOOP)\nD+1\n@LOOP\nM=D\n@0\n0;JMP\n" = .ok image := by
  have assembles : assemble looseSource = .ok ⟨#[7, 0xE7C0, 1, 0xE308, 0, 0xEA87]⟩ :=
    assemble_eq_ok_iff.mpr ⟨[.instruction (.address (.literal 7)), .label "LOOP",
      .instruction (.compute "" "D+1" ""), .instruction (.address (.symbol "LOOP")),
      .instruction (.compute "M" "D" ""), .instruction (.address (.literal 0)),
      .instruction (.compute "" "0" "JMP")], by rfl, ⟨by decide, by decide, by decide⟩, by rfl⟩
  obtain ⟨read, reads, prints, -, text, -, -⟩ := assemble_printed assembles
  have normal : unlines ((lines looseSource).map fun text => String.ofList (normalLine text)) =
      "@7\n(LOOP)\nD+1\n@LOOP\nM=D\n@0\n0;JMP\n" := by
    decide +kernel
  rw [normal] at text
  exact ⟨_, read, assembles, reads, text, text ▸ prints⟩

end SourceText

end HackToolchain
