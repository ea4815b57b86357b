import HackToolchain.Proofs.Assembly.Definition
import HackToolchain.Proofs.Lowering.ReadBack
import Mathlib.Order.Monotone.Basic

/-! Where the blocks of a translated program lie in the ROM. Nothing is asked of names here: any of
them may hold white space, a comment or a line of its own, and the place of a block is counted on
the text of the blocks before it. -/

namespace HackToolchain

/-! ### Sources made of blocks -/

theorem size_of_readSource {source : String} {lines : List Line}
    (reads : readSource source = .ok lines) :
    ((SourceText.lines source).filter SourceText.isInstruction).length = Lines.size lines := by
  rw [readSource, SourceText.cleanLines_eq_lines] at reads
  have read := (mapM_eq_ok_iff.mp (SourceText.filter_isInstruction reads)).length_eq
  rw [read, List.length_map, Lines.size]

/-- The address of a symbol that is read in a source, on the text of the source. -/
theorem address_of_readSource {source name : String} {lines : List Line}
    (reads : readSource source = .ok lines) (used : name ∈ Lines.references lines)
    (isName : isSymbol name.toList) :
    SourceText.address (SourceText.lines source) name = Lines.address lines name := by
  rw [readSource, SourceText.cleanLines_eq_lines] at reads
  refine SourceText.address_eq reads ?_ isName
  rw [Lines.references, ← SourceText.filterMap_symbol? reads] at used
  obtain ⟨text, inside, same⟩ := List.mem_filterMap.mp used
  exact SourceText.eq_symbolLine same ▸ inside

theorem read_wellSpelled {block : Block} {lines : List Line} (spelled : block.WellSpelled)
    (reads : readSource block.text = .ok lines) : lines = block.body := by
  rw [readSource, Block.text, cleanLines_unlines, spelled.cleanLines] at reads
  exact ((mapM_read_text spelled.body).mp reads).1

namespace Program

variable {program : Program}

theorem cleanLines_text (program : Program) : Text.cleanLines program.text.toList =
    program.blocks.flatMap fun block => Text.cleanLines block.text.toList := by
  simp only [text, Block.text, cleanLines_unlines, lines, List.flatMap_assoc]

/-- The clean lines of a program are those of its blocks. -/
theorem lines_text_eq_flatMap (program : Program) : SourceText.lines program.text =
    program.blocks.flatMap fun block => SourceText.lines block.text := by
  simp only [← SourceText.cleanLines_eq_lines, cleanLines_text]

theorem readSource_append {front back : List Block} {lines : List Line} :
    readSource (text ⟨front ++ back⟩) = .ok lines ↔ ∃ first last,
      readSource (text ⟨front⟩) = .ok first ∧ readSource (text ⟨back⟩) = .ok last ∧
        lines = first ++ last := by
  simp only [readSource, cleanLines_text, List.flatMap_append]
  exact mapM_append_eq_ok

theorem readSource_singleton (block : Block) :
    readSource (text ⟨[block]⟩) = readSource block.text := by
  rw [readSource, cleanLines_text, List.flatMap_singleton, readSource]

/-- The number of instruction lines in the text of the first blocks. -/
def blockAddress (program : Program) (count : Nat) : Nat :=
  ((SourceText.lines (text ⟨program.blocks.take count⟩)).filter SourceText.isInstruction).length

theorem blockAddress_mono (program : Program) : Monotone program.blockAddress := by
  apply monotone_nat_of_le_succ
  intro index
  rw [blockAddress, blockAddress, lines_text_eq_flatMap, lines_text_eq_flatMap,
    List.take_add_one, List.flatMap_append, List.filter_append, List.length_append]
  exact Nat.le_add_right _ _

/-- The lines of a source split where a block of its text begins and where it ends. -/
theorem exists_split {lines : List Line} (reads : readSource program.text = .ok lines)
    {index : Nat} {block : Block} (found : program.blocks[index]? = some block) :
    ∃ front body back, lines = front ++ body ++ back ∧ readSource block.text = .ok body ∧
      Lines.size front = program.blockAddress index ∧
        Lines.size front + Lines.size body = program.blockAddress (index + 1) := by
  have taken : program.blocks.take (index + 1) = program.blocks.take index ++ [block] := by
    rw [List.take_add_one, found]
    rfl
  have whole : program =
      ⟨program.blocks.take (index + 1) ++ program.blocks.drop (index + 1)⟩ := by
    rw [List.take_append_drop]
  rw [whole] at reads
  obtain ⟨first, back, readFirst, readBack, rfl⟩ := readSource_append.mp reads
  have readTaken := readFirst
  rw [taken] at readTaken
  obtain ⟨front, body, readFront, readBody, rfl⟩ := readSource_append.mp readTaken
  refine ⟨front, body, back, rfl, readSource_singleton block ▸ readBody, ?_, ?_⟩
  · exact (size_of_readSource readFront).symm
  · rw [← Lines.size_append]
    exact (size_of_readSource readFirst).symm

/-! ### Blocks of commands -/

variable {commands : List Command} {options : Options} {n : Nat}

/-- The position of the block of a command. -/
def commandBlock (options : Options) (i : Nat) : Nat :=
  (if options.bootstrap then 1 else 0) + i

/-- The ROM address of the block of a command. -/
def commandAddress (program : Program) (options : Options) (i : Nat) : Nat :=
  program.blockAddress (commandBlock options i)

/-- A session makes one block for each command of a program, whatever number it starts with. -/
theorem exists_block (translated : ((Session.program commands options).run.run n).1 = .ok program)
    {i : Nat} {c : Command} (found : commands[i]? = some c) :
    ∃ number block, program.blocks[commandBlock options i]? = some block ∧
      c.fragment number = .ok block.body ∧ block.title = c.text := by
  obtain ⟨blocks, inner, split⟩ := blocks_of_session translated
  have pairs := mapM_eq_ok_iff.mp inner
  rw [← Command.map_snd_numberFrom (Session.firstNumber options n) commands, List.getElem?_map,
    Option.map_eq_some_iff] at found
  obtain ⟨⟨number, c⟩, found, rfl⟩ := found
  obtain ⟨inside, same⟩ := List.getElem?_eq_some_iff.mp found
  have there : i < blocks.length := pairs.length_eq ▸ inside
  have translates := pairs.get inside there
  rw [List.get_eq_getElem, List.get_eq_getElem, same] at translates
  obtain ⟨fragment, title⟩ := Command.block_eq_ok.mp translates
  refine ⟨number, blocks[i], ?_, fragment, title⟩
  rw [split, commandBlock, ← Session.length_firstBlocks options n, List.append_assoc,
    List.getElem?_append_right (by omega), Nat.add_sub_cancel_left,
    List.getElem?_append_left there, List.getElem?_eq_getElem there]

/-- The bootstrap code is the first block. -/
theorem bootstrap_block
    (translated : ((Session.program commands options).run.run n).1 = .ok program)
    (bootstrap : options.bootstrap = true) :
    program.blocks[0]? = some ⟨"bootstrap", Lowering.bootstrap n⟩ := by
  obtain ⟨blocks, -, split⟩ := blocks_of_session translated
  rw [split, Session.firstBlocks, if_pos bootstrap]
  rfl

/-- The closing loop comes after the blocks of the commands. -/
theorem exists_lastBlocks
    (translated : ((Session.program commands options).run.run n).1 = .ok program) :
    ∃ front number, program.blocks = front ++ Session.lastBlocks options number ∧
      front.length = commandBlock options commands.length := by
  obtain ⟨blocks, inner, split⟩ := blocks_of_session translated
  have count : commands.length = blocks.length := by
    rw [← (mapM_eq_ok_iff.mp inner).length_eq, ← List.length_map (f := Prod.snd),
      Command.map_snd_numberFrom]
  refine ⟨_, _, split, ?_⟩
  rw [List.length_append, commandBlock, Session.length_firstBlocks, count]

theorem blockAddress_length {lines : List Line} (reads : readSource program.text = .ok lines) :
    program.blockAddress program.blocks.length = Lines.size lines := by
  rw [blockAddress, List.take_length]
  exact size_of_readSource reads

/-- The lines of a program split at a command, whatever its text reads as. -/
theorem split_block (translated : ((Session.program commands options).run.run n).1 = .ok program)
    {lines : List Line} (reads : readSource program.text = .ok lines) {i : Nat} {c : Command}
    (found : commands[i]? = some c) :
    ∃ number, ∃ block : Block, ∃ front body back,
      c.fragment number = .ok block.body ∧ block.title = c.text ∧
      readSource block.text = .ok body ∧ lines = front ++ body ++ back ∧
      Lines.size front = program.commandAddress options i ∧
        Lines.size front + Lines.size body = program.commandAddress options (i + 1) := by
  obtain ⟨number, block, there, fragment, title⟩ := exists_block translated found
  obtain ⟨front, body, back, split, readBody, start, stop⟩ := exists_split reads there
  exact ⟨number, block, front, body, back, fragment, title, readBody, split, start, stop⟩

/-- The lines of a program split at a command whose names are symbols. -/
theorem split_command (translated : ((Session.program commands options).run.run n).1 = .ok program)
    {lines : List Line} (reads : readSource program.text = .ok lines) {i : Nat} {c : Command}
    (found : commands[i]? = some c) (named : c.Named) :
    ∃ number front body back, c.fragment number = .ok body ∧ lines = front ++ body ++ back ∧
      Lines.size front = program.commandAddress options i ∧
        Lines.size front + Lines.size body = program.commandAddress options (i + 1) := by
  obtain ⟨number, block, front, body, back, fragment, title, readBody, split, start, stop⟩ :=
    split_block translated reads found
  obtain rfl := read_wellSpelled (Command.wellSpelled_block named fragment title) readBody
  exact ⟨number, front, block.body, back, fragment, split, start, stop⟩

theorem commandAddress_mono {i j : Nat} (h : i ≤ j) :
    program.commandAddress options i ≤ program.commandAddress options j :=
  program.blockAddress_mono (Nat.add_le_add_left h _)

/-- No command starts inside of the block of another one. -/
theorem commandAddress_ne (i : Nat) {j address : Nat}
    (after : program.commandAddress options i < address)
    (before : address < program.commandAddress options (i + 1)) :
    program.commandAddress options j ≠ address := by
  by_cases h : j ≤ i
  · have below : program.commandAddress options j ≤ _ := commandAddress_mono h
    omega
  · have above : _ ≤ program.commandAddress options j :=
      commandAddress_mono (show i + 1 ≤ j by omega)
    omega

end Program

end HackToolchain
