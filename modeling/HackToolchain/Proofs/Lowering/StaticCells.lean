import HackToolchain.Proofs.Lowering.FrameBlocks
import HackToolchain.Proofs.Lowering.LabelText
import HackToolchain.Proofs.Machine.Execution

/-! Which cell an access to a static variable reaches. The name of a file is written into the text
as it is, so the assembler knows a variable by what it reads of that name: its last line, without
white space. Files whose names read alike share their variables. -/

namespace HackToolchain

/-! ### The end of a text -/

namespace Text

/-- What follows the last line feed of a text. -/
def lastLine : List Char → List Char
  | [] => []
  | c :: rest => if c = '\n' ∨ '\n' ∈ rest then lastLine rest else c :: rest

theorem lastLine_of_not_mem {text : List Char} (single : '\n' ∉ text) : lastLine text = text := by
  cases text with
  | nil => rfl
  | cons c rest =>
    rw [List.mem_cons, not_or] at single
    rw [lastLine, if_neg fun feed => feed.elim (single.1 ·.symm) single.2]

theorem feed_not_mem_lastLine (text : List Char) : '\n' ∉ lastLine text := by
  induction text with
  | nil => simp [lastLine]
  | cons c rest ih =>
    rw [lastLine]
    split
    · exact ih
    · next plain =>
      rw [not_or] at plain
      simp [plain.2, Ne.symm plain.1]

theorem lastLine_subset (text : List Char) : lastLine text ⊆ text := by
  induction text with
  | nil => simp [lastLine]
  | cons c rest ih =>
    rw [lastLine]
    split
    · exact fun d inside => List.mem_cons_of_mem c (ih inside)
    · exact List.Subset.refl _

/-- A text is its last line, or that line stands behind a line feed. -/
theorem eq_lastLine_or (text : List Char) :
    text = lastLine text ∨ ∃ front, text = front ++ '\n' :: lastLine text := by
  induction text with
  | nil => exact .inl rfl
  | cons c rest ih =>
    rw [lastLine]
    split
    · next feed =>
      right
      rcases ih with same | ⟨front, same⟩
      · have single : '\n' ∉ rest := same ▸ feed_not_mem_lastLine rest
        exact ⟨[], by rw [← same, feed.resolve_right single]; rfl⟩
      · exact ⟨c :: front, congrArg (c :: ·) same⟩
    · exact .inl rfl

/-- What is written behind a text is read behind its last line, and is all that is read if the text
is one line. -/
theorem exists_cleanLines_append {text rest : List Char} (slash : '/' ∉ text) (some : rest ≠ [])
    (solid : ∀ c ∈ rest, c ≠ '/' ∧ isBlank c = false) :
    ∃ before, cleanLines (text ++ rest) = before ++ [unspaced (lastLine text) ++ rest] ∧
      ('\n' ∉ text → before = []) := by
  have feed : '\n' ∉ lastLine text ++ rest := by
    rw [List.mem_append, not_or]
    exact ⟨feed_not_mem_lastLine text, fun inside => absurd (solid _ inside).2 (by decide)⟩
  have plain : '/' ∉ lastLine text ++ rest := by
    rw [List.mem_append, not_or]
    exact ⟨fun inside => slash (lastLine_subset text inside),
      fun inside => (solid _ inside).1 rfl⟩
  have last : cleanLines (lastLine text ++ rest) = [unspaced (lastLine text) ++ rest] := by
    rw [cleanLines_of_not_mem feed, clean_eq_unspaced plain, unspaced_append,
      unspaced_eq_self fun c inside => (solid c inside).2, if_neg (by simp [some])]
  rcases eq_lastLine_or text with same | ⟨front, same⟩
  · refine ⟨[], ?_, fun _ => rfl⟩
    rw [same, lastLine_of_not_mem (feed_not_mem_lastLine text), last]
    rfl
  · refine ⟨cleanLines front, ?_, fun single => absurd ?_ single⟩
    · conv =>
        lhs
        rw [same, List.append_assoc, List.cons_append, cleanLines_append, last]
    · rw [same]
      simp

end Text

/-! ### Lines with a dot -/

theorem Mnemonic.Known.dot_not_mem {dest comp jmp : String} (h : Known dest comp jmp) :
    '.' ∉ dest.toList ∧ '.' ∉ comp.toList ∧ '.' ∉ jmp.toList := by
  have plain : ∀ {width : Nat} {table : List (String × BitVec width)} {text : String},
      (∀ entry ∈ table, '.' ∉ entry.1.toList) → (table.lookup text).isSome → '.' ∉ text.toList := by
    intro width table text all found
    obtain ⟨bits, found⟩ := Option.isSome_iff_exists.mp found
    exact all _ (mem_of_lookup found)
  obtain ⟨comp, dest, jmp⟩ := known_iff.mp h
  exact ⟨plain (by decide) dest, plain (by decide) comp, plain (by decide) jmp⟩

namespace SourceText

theorem mem_cut {mark c : Char} {text : List Char} (inside : c ∈ text) :
    c = mark ∨ c ∈ text.takeWhile (· ≠ mark) ∨ c ∈ (text.dropWhile (· ≠ mark)).tail := by
  induction text with
  | nil => cases inside
  | cons d rest ih =>
    by_cases same : d = mark
    · subst same
      simpa using inside
    · rw [List.takeWhile_cons_of_pos (by simpa using same),
        List.dropWhile_cons_of_pos (by simpa using same), List.mem_cons]
      rcases List.mem_cons.mp inside with rfl | later
      · exact .inr (.inl (.inl rfl))
      · rcases ih later with here | front | back
        · exact .inl here
        · exact .inr (.inl (.inr front))
        · exact .inr (.inr back)

/-- A dot in a compute line stands in one of its parts. -/
theorem dot_mem_of_readCompute {text : List Char} {dest comp jmp : String}
    (reads : Line.readCompute text = .ok (.compute dest comp jmp)) (dot : '.' ∈ text) :
    '.' ∈ dest.toList ∨ '.' ∈ comp.toList ∨ '.' ∈ jmp.toList := by
  rw [Line.readCompute] at reads
  simp only [cutDestination_eq, cutJump_eq] at reads
  split at reads
  · cases reads
  · cases reads
    simp only [String.toList_ofList]
    have rest : '.' ∈ (cutDestination text).1 ∨ '.' ∈ (cutDestination text).2 := by
      rw [cutDestination]
      split
      · exact (mem_cut dot).resolve_left (by decide)
      · exact .inr dot
    exact rest.imp_right fun inside => (mem_cut inside).resolve_left (by decide)

end SourceText

/-- A line with a dot and no closing parenthesis at its end refers to a symbol, if it has a word. -/
theorem read_dotted {resolve : String → Nat} {text : List Char} {line : Line} (dot : '.' ∈ text)
    (last : text.getLast? ≠ some ')') (reads : Line.read text = .ok line)
    (encodes : ∀ i, line = .instruction i → ∃ word, i.encode resolve = .ok word) :
    ∃ name : String, text = '@' :: name.toList ∧ isSymbol name.toList ∧
      line = .instruction (.address (.symbol name)) := by
  match text with
  | [] => cases dot
  | c :: rest =>
    by_cases hAt : c = '@'
    · subst hAt
      have dot : '.' ∈ rest := by simpa using dot
      obtain ⟨o, readOperand, rfl⟩ := Line.read_address.mp reads
      rcases Operand.read_eq_ok.mp readOperand with ⟨value, -, found, -⟩ | ⟨name, rfl, isName, same⟩
      · rw [Text.natural?] at found
        split at found
        · next digits => exact absurd (List.all_eq_true.mp digits.2 _ dot) (by decide)
        · cases found
      · exact ⟨name, by rw [same], same ▸ isName, rfl⟩
    · by_cases hOpen : c = '('
      · subst hOpen
        obtain ⟨name, rfl, -⟩ := Line.read_label.mp reads
        rw [← List.cons_append, List.getLast?_append] at last
        exact absurd rfl last
      · obtain ⟨i, compute, rfl⟩ := (Line.read_other hAt hOpen).mp reads
        obtain ⟨word, encoded⟩ := encodes i rfl
        obtain ⟨dest, comp, jmp, rfl⟩ := SourceText.exists_of_readCompute compute
        have known : Mnemonic.Known dest comp jmp := ⟨word, encoded⟩
        obtain ⟨noDest, noComp, noJump⟩ := known.dot_not_mem
        rcases SourceText.dot_mem_of_readCompute compute dot with inside | inside | inside
        · exact absurd inside noDest
        · exact absurd inside noComp
        · exact absurd inside noJump

/-! ### The symbol of a static variable as it is read -/

namespace Lowering

/-- What is read of the name of a file in a line that starts with an at sign. -/
def writtenFile (file : String) : String :=
  String.ofList (Text.unspaced (Text.lastLine ('@' :: file.toList))).tail

/-- A name of one line loses its white space. -/
theorem writtenFile_of_not_mem {file : String} (single : '\n' ∉ file.toList) :
    writtenFile file = spelled file := by
  rw [writtenFile, Text.lastLine_of_not_mem (by simp [single]), spelled, Text.unspaced,
    List.filter_cons_of_pos (by decide)]
  rfl

theorem writtenFile_of_solid {file : String} (solid : ∀ c ∈ file.toList, Text.isBlank c = false) :
    writtenFile file = file := by
  rw [writtenFile_of_not_mem fun inside => absurd (solid _ inside) (by decide), spelled,
    Text.unspaced_eq_self solid, String.ofList_toList]

/-- The line that names the cell of a static variable, with what lines its name holds before. -/
theorem exists_cleanLines_static {file : String} (stem : '/' ∉ file.toList) (index : Nat) :
    ∃ before, Text.cleanLines (symbol (staticSymbol file index)).text.toList = before ++
        [Text.unspaced (Text.lastLine ('@' :: file.toList)) ++ '.' :: (toString index).toList] ∧
      ('\n' ∉ file.toList → before = []) := by
  have text : (symbol (staticSymbol file index)).text.toList =
      ('@' :: file.toList) ++ '.' :: (toString index).toList := by
    rw [symbol, Line.toList_text_symbol, staticSymbol, String.toList_append, String.toList_append,
      List.append_assoc]
    rfl
  have solid : ∀ c ∈ '.' :: (toString index).toList, c ≠ '/' ∧ Text.isBlank c = false :=
    List.forall_mem_cons.mpr ⟨by decide, fun c inside =>
      Line.plain_of_isSymbolChar (isSymbolChar_toString index c inside)⟩
  have slash : '/' ∉ '@' :: file.toList := by simp [stem]
  obtain ⟨before, clean, none⟩ := Text.exists_cleanLines_append slash (by simp) solid
  exact ⟨before, text ▸ clean, fun single => none (by simp [single])⟩

/-- If that line is read and has a word, it refers to the symbol of the variable as it is read. -/
theorem read_static {resolve : String → Nat} {file : String} {index : Nat} {line : Line}
    (reads : Line.read (Text.unspaced (Text.lastLine ('@' :: file.toList)) ++
      '.' :: (toString index).toList) = .ok line)
    (encodes : ∀ i, line = .instruction i → ∃ word, i.encode resolve = .ok word) :
    line = symbol (staticSymbol (writtenFile file) index) ∧
      isSymbol (staticSymbol (writtenFile file) index).toList := by
  have last : ∀ front : List Char,
      (front ++ '.' :: (toString index).toList).getLast? ≠ some ')' := by
    intro front closing
    rw [List.getLast?_append_of_ne_nil _ (by simp)] at closing
    rcases List.mem_cons.mp (List.mem_of_getLast? closing) with dot | digit
    · cases dot
    · exact absurd (isSymbolChar_toString index _ digit) (by decide)
  obtain ⟨name, same, isName, rfl⟩ := read_dotted (by simp) (last _) reads encodes
  cases written : Text.unspaced (Text.lastLine ('@' :: file.toList)) with
  | nil =>
    rw [written] at same
    cases same
  | cons c rest =>
    rw [written, List.cons_append] at same
    have name_eq : name = staticSymbol (writtenFile file) index := by
      rw [← String.toList_inj, ← (List.cons.inj same).2, staticSymbol, writtenFile, written]
      simp
    rw [← name_eq]
    exact ⟨rfl, isName⟩

end Lowering

open Lowering

/-- The symbol of a static variable as it is read. -/
def writtenStatic (file : String) (index : Int32) : String :=
  staticSymbol (writtenFile file) index.toInt.toNat

/-- A block reads as its lines if all but one of them are in the language of the assembler, and that
one as whatever it holds. -/
theorem read_around {block : Block} {front back lines : List Line} {line : Line}
    (title : '\n' ∉ block.title.toList) (body : block.body = front ++ line :: back)
    (spelled : ∀ line ∈ front, line.WellSpelled) (spelled' : ∀ line ∈ back, line.WellSpelled)
    (reads : readSource block.text = .ok lines) :
    ∃ middle, (Text.cleanLines line.text.toList).mapM Line.read = .ok middle ∧
      lines = front ++ (middle ++ back) := by
  rw [readSource, Block.text, cleanLines_unlines, Block.cleanLines_lines title, body,
    List.flatMap_append, List.flatMap_cons, Block.cleanLines_wellSpelled spelled,
    Block.cleanLines_wellSpelled spelled'] at reads
  obtain ⟨first, rest, firstReads, restReads, rfl⟩ := mapM_append_eq_ok.mp reads
  obtain ⟨middle, last, middleReads, lastReads, rfl⟩ := mapM_append_eq_ok.mp restReads
  obtain ⟨rfl, -⟩ := (mapM_read_text spelled).mp firstReads
  obtain ⟨rfl, -⟩ := (mapM_read_text spelled').mp lastReads
  exact ⟨middle, middleReads, rfl⟩

/-- The block of an access to a static variable reads as an access to the cell of its symbol as it
is read, with the first lines of the name of the file in between. -/
theorem read_staticAccess {resolve : String → Nat} {block : Block} {op : StackOp} {index : Int32}
    {file : String} {lines : List Line} (stem : '/' ∉ file.toList)
    (body : access op .staticVar index file = .ok block.body)
    (title : block.title = (Command.access op .staticVar index file).text)
    (reads : readSource block.text = .ok lines)
    (encodes : ∀ i ∈ Lines.code lines, ∃ word, i.encode resolve = .ok word) :
    isSymbol (writtenStatic file index).toList ∧
      ∃ first, lines = fetch op ++ first ++ symbol (writtenStatic file index) :: move op ∧
        ('\n' ∉ file.toList → first = []) := by
  have split := (staticAccess_eq_ok.mp body).2
  obtain ⟨pieces, clean, none⟩ := exists_cleanLines_static stem index.toInt.toNat
  have single : '\n' ∉ block.title.toList := by
    rw [title]
    exact Command.feed_not_mem_access op .staticVar index file
  obtain ⟨middle, read, rfl⟩ :=
    read_around single split (wellSpelled_fetch op) (wellSpelled_move op) reads
  rw [clean] at read
  obtain ⟨first, line, readFirst, readLine, rfl⟩ := mapM_snoc_eq_ok.mp read
  obtain ⟨rfl, isName⟩ :=
    read_static readLine fun i same => encodes i (Lines.mem_code.mpr (by simp [same]))
  refine ⟨isName, first, by rw [writtenStatic]; simp, fun single => ?_⟩
  rw [none single] at readFirst
  cases readFirst
  rfl

/-! ### Cells -/

/-- The address of a symbol that no program declares. -/
def predefinedAddress (name : String) : Nat := (predefinedSymbols.lookup name).getD 0

theorem loaded_congr {resolve resolve' : String → Nat} {rom : Array Word} {pc : Nat}
    {code code' : List Instruction}
    (same : List.Forall₂ (fun i j => i.encode resolve = j.encode resolve') code code')
    (h : Loaded resolve rom pc code) : Loaded resolve' rom pc code' := by
  induction same generalizing pc with
  | nil => trivial
  | cons here _ ih =>
    rw [Loaded, here] at h
    exact ⟨h.1, ih h.2⟩

/-- Behind the line that names its cell, an access names no cell but the stack pointer. -/
theorem encode_move (lines : List Line) (op : StackOp) : List.Forall₂
    (fun i j => i.encode (Lines.address lines) = j.encode predefinedAddress)
    (Lines.code (move op)) (Lines.code (move op)) := by
  refine List.forall₂_same.mpr fun i inside => Instruction.encode_congr fun name uses => ?_
  have all : ∀ name ∈ Lines.references (move op), name = "SP" := by cases op <;> decide
  rw [all name (List.mem_filterMap.mpr ⟨i, inside, uses⟩)]
  exact Lines.address_of_predefined rfl

namespace Program

/-- The code of a command ends in an access to a cell, as if the cell were written as a number. -/
structure AccessesCell (program : Program) (options : Options) (image : Image) (i : Nat)
    (op : StackOp) (cell : Nat) : Prop where
  inside : program.commandAddress options i + Lines.size (literal cell :: move op) ≤
    program.commandAddress options (i + 1)
  loaded : Loaded predefinedAddress image.words
    (program.commandAddress options (i + 1) - Lines.size (literal cell :: move op))
    (Lines.code (literal cell :: move op))

variable {commands : List Command} {options : Options} {program : Program} {image : Image}
  {lines : List Line} {i j cell other : Nat} {op op' : StackOp} {index index' : Int32}
  {file file' : String}

theorem AccessesCell.unique (h : program.AccessesCell options image i op cell)
    (h' : program.AccessesCell options image i op other) : cell = other := by
  obtain ⟨⟨word, encoded, found⟩, -⟩ := h.loaded
  obtain ⟨⟨word', encoded', found'⟩, -⟩ := h'.loaded
  have same : word = word' := Option.some.inj (found.symm.trans found')
  obtain ⟨bound, rfl⟩ := encodeAddress_eq_ok.mp encoded
  obtain ⟨bound', rfl⟩ := encodeAddress_eq_ok.mp encoded'
  have cells := congrArg BitVec.toNat same
  rw [Platform.maxAddress] at bound bound'
  rw [BitVec.toNat_ofNat, BitVec.toNat_ofNat] at cells
  omega

/-- An access to a static variable reaches the address of its symbol as it is read. -/
theorem accessesCell_static (translated : ofCommands commands options = .ok program)
    (reads : readSource program.text = .ok lines) (assembled : Lines.Assembled lines image.words)
    (found : commands[i]? = some (.access op .staticVar index file))
    (stem : '/' ∉ file.toList) :
    (0 ≤ index.toInt ∧ isSymbol (writtenStatic file index).toList ∧
      writtenStatic file index ∈ Lines.references lines) ∧
      program.AccessesCell options image i op
        (Lines.address lines (writtenStatic file index)) := by
  obtain ⟨number, block, front, body, back, fragment, title, readBody, split, start, stop⟩ :=
    split_block translated reads found
  have inside : body ⊆ lines := by simp [split]
  obtain ⟨isName, first, rfl, -⟩ :=
    read_staticAccess stem fragment title readBody (assembled.encodes inside)
  rw [← List.append_assoc] at split
  refine ⟨⟨(staticAccess_eq_ok.mp fragment).1, isName, ?_⟩, ?_, ?_⟩
  · rw [Lines.mem_references, split]
    simp [symbol]
  · rw [← start, ← stop, Lines.size_append]
    exact Nat.add_le_add_left (Nat.le_add_left _ _) _
  · have place : program.commandAddress options (i + 1) -
        Lines.size (literal (Lines.address lines (writtenStatic file index)) :: move op) =
        Lines.size (front ++ (fetch op ++ first)) := by
      rw [← stop, Lines.size_append (fetch op ++ first), ← Nat.add_assoc,
        Lines.size_append front]
      exact Nat.add_sub_cancel ..
    have same : List.Forall₂
        (fun i j => i.encode (Lines.address lines) = j.encode predefinedAddress)
        (Lines.code (symbol (writtenStatic file index) :: move op))
        (Lines.code (literal (Lines.address lines (writtenStatic file index)) :: move op)) :=
      .cons rfl (encode_move lines op)
    rw [place]
    exact loaded_congr same (assembled.loaded split)

/-- The symbol of a static variable as it is read is a variable of the program, if no line declares
it. -/
theorem mem_variableNames_static (reads : readSource program.text = .ok lines)
    (referred : writtenStatic file index ∈ Lines.references lines)
    (undeclared : SourceText.labelLine (writtenStatic file index) ∉
      SourceText.lines program.text) :
    writtenStatic file index ∈ Lines.variableNames lines := by
  rw [readSource, SourceText.cleanLines_eq_lines] at reads
  refine Lines.mem_variableNames.mpr ⟨referred, Lines.fixed?_eq_none.mpr ⟨?_, ?_⟩⟩
  · exact unfixed_staticSymbol (writtenFile file) index.toInt.toNat
  · exact fun inside => undeclared ((SourceText.labelLine_mem reads).mpr inside)

theorem writtenStatic_inj (positive : 0 ≤ index.toInt) (positive' : 0 ≤ index'.toInt) :
    writtenStatic file index = writtenStatic file' index' ↔
      writtenFile file = writtenFile file' ∧ index = index' := by
  constructor
  · intro same
    obtain ⟨files, numbers⟩ := staticSymbol_injective same
    exact ⟨files, Int32.toInt_inj.mp (by omega)⟩
  · rintro ⟨files, rfl⟩
    rw [writtenStatic, writtenStatic, files]

/-- Two accesses to static variables that no line declares reach one cell if and only if the names
of their files are read alike and their indices are the same; names without white space are read as
they are. An access to a variable that a line declares reaches the address of that declaration. -/
theorem static_cells (translated : ofCommands commands options = .ok program)
    (assembled : assemble program.text = .ok image)
    (found : commands[i]? = some (.access op .staticVar index file))
    (found' : commands[j]? = some (.access op' .staticVar index' file'))
    (stem : '/' ∉ file.toList) (stem' : '/' ∉ file'.toList) :
    ∃ cell cell',
      program.AccessesCell options image i op cell ∧
      program.AccessesCell options image j op' cell' ∧
      cell = SourceText.address (SourceText.lines program.text) (writtenStatic file index) ∧
      (SourceText.labelLine (writtenStatic file index) ∉ SourceText.lines program.text →
        SourceText.labelLine (writtenStatic file' index') ∉ SourceText.lines program.text →
        16 ≤ cell ∧
        (cell = cell' ↔ writtenFile file = writtenFile file' ∧ index = index') ∧
        ((∀ c ∈ file.toList ++ file'.toList, Text.isBlank c = false) →
          (cell = cell' ↔ file = file' ∧ index = index'))) := by
  obtain ⟨lines, reads, placeable, encoded⟩ := assemble_eq_ok_iff.mp assembled
  have placed : Lines.Assembled lines image.words := ⟨placeable, encoded⟩
  obtain ⟨⟨positive, isName, referred⟩, reaches⟩ :=
    accessesCell_static translated reads placed found stem
  obtain ⟨⟨positive', -, referred'⟩, reaches'⟩ :=
    accessesCell_static translated reads placed found' stem'
  refine ⟨_, _, reaches, reaches', (address_of_readSource reads referred isName).symm,
    fun undeclared undeclared' => ?_⟩
  have free := mem_variableNames_static reads referred undeclared
  have free' := mem_variableNames_static reads referred' undeclared'
  have apart : Lines.address lines (writtenStatic file index) =
      Lines.address lines (writtenStatic file' index') ↔
        writtenFile file = writtenFile file' ∧ index = index' := by
    rw [Lines.address_variableNames_inj free free', writtenStatic_inj positive positive']
  refine ⟨?_, apart, fun solid => ?_⟩
  · rw [Lines.address_variableNames free]
    exact Nat.le_add_right _ _
  · rw [List.forall_mem_append] at solid
    rw [apart, writtenFile_of_solid solid.1, writtenFile_of_solid solid.2]

/-- Two files with one index each. -/
def scopedFiles : List Command :=
  [.access .pop .staticVar 0 "Main", .access .push .staticVar 0 "My File"]

def scopedLines : List Line :=
  popData ++ [symbol "Main.0", assign "M" "D"] ++ pushNamed "MyFile.0" ++ endLoop 0

theorem static_cells_scopedFiles : ∃ program image cell cell',
    ofCommands scopedFiles {} = .ok program ∧ assemble program.text = .ok image ∧
      program.AccessesCell {} image 0 .pop cell ∧ program.AccessesCell {} image 1 .push cell' ∧
      16 ≤ cell ∧ cell ≠ cell' := by
  obtain ⟨program, translated⟩ : ∃ program, ofCommands scopedFiles {} = .ok program := ⟨_, rfl⟩
  have reads : readSource program.text = .ok scopedLines := by
    rw [readSource, text, cleanLines_unlines]
    cases translated
    decide +kernel
  have assembled : assemble program.text = .ok
      ⟨#[0, 0xFC88, 0xFC20, 0xFC10, 16, 0xE308, 17, 0xFC10, 0, 0xFC20, 0xE308, 0, 0xFDC8, 13,
        0xEA87]⟩ :=
    assemble_eq_ok_iff.mpr ⟨scopedLines, reads, ⟨by decide, by decide, by decide⟩, by rfl⟩
  obtain ⟨cell, cell', reaches, reaches', -, apart⟩ :=
    static_cells (i := 0) (j := 1) translated assembled rfl rfl (by decide) (by decide)
  have undeclared : ∀ name ∈ ["Main.0", "MyFile.0"],
      SourceText.labelLine name ∉ SourceText.lines program.text := by
    rw [← SourceText.cleanLines_eq_lines, text, cleanLines_unlines]
    cases translated
    decide +kernel
  obtain ⟨above, differ, -⟩ := apart (undeclared _ (by decide)) (undeclared _ (by decide))
  refine ⟨program, _, cell, cell', translated, assembled, reaches, reaches', above, ?_⟩
  rw [Ne, differ]
  decide

/-- Two files whose names are read alike. -/
def mergedFiles : List Command :=
  [.access .push .staticVar 0 "Main", .access .push .staticVar 0 "Ma in"]

def mergedLines : List Line := pushNamed "Main.0" ++ pushNamed "Main.0" ++ endLoop 0

/-- Variables of different files lie in one cell. -/
theorem mergedFiles_share_cell : ∃ program image,
    ofCommands mergedFiles {} = .ok program ∧ assemble program.text = .ok image ∧
      program.AccessesCell {} image 0 .push 16 ∧ program.AccessesCell {} image 1 .push 16 := by
  obtain ⟨program, translated⟩ : ∃ program, ofCommands mergedFiles {} = .ok program := ⟨_, rfl⟩
  have reads : readSource program.text = .ok mergedLines := by
    rw [readSource, text, cleanLines_unlines]
    cases translated
    decide +kernel
  have placed : Lines.Assembled mergedLines
      #[16, 0xFC10, 0, 0xFC20, 0xE308, 0, 0xFDC8, 16, 0xFC10, 0, 0xFC20, 0xE308, 0, 0xFDC8, 14,
        0xEA87] :=
    ⟨⟨by decide, by decide, by decide⟩, by rfl⟩
  refine ⟨program, ⟨_⟩, translated,
    assemble_eq_ok_iff.mpr ⟨mergedLines, reads, placed.placeable, placed.words⟩, ?_, ?_⟩
  · exact (accessesCell_static (i := 0) translated reads placed rfl (by decide)).2
  · exact (accessesCell_static (i := 1) translated reads placed rfl (by decide)).2

end Program

end HackToolchain
