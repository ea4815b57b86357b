import HackToolchain.Proofs.Lowering.FreeSymbols
import HackToolchain.Proofs.Lowering.Returns
import HackToolchain.Proofs.Lowering.StraightAssembly
import HackToolchain.Proofs.StackMachine.Operands

/-! The area of the static variables, which is below the stack. Variables get their cells in the
order of their first uses, and a push to a stack above the area leaves them alone. Nothing keeps a
program from having more variables than the 240 that there is room for. -/

namespace HackToolchain

open Lowering StackMachine

/-! ### What a push changes -/

namespace StackMachine

variable {ram after : Ram} {cell : Cell}

theorem push_keeps {value : Word} (run : push .inCells value ram = some ((), after))
    (pointer : cell ≠ sp) (top : cell ≠ cellOf (ram.read sp)) :
    after.read cell = ram.read cell := by
  simp only [push, bind_apply, run_load, run_store, Option.bind_some, Option.some.injEq,
    Prod.mk.injEq, true_and] at run
  rw [← run, Ram.read_write, if_neg pointer.symm, Ram.read_write, if_neg top.symm]

/-- Finding the cell of an operand changes the scratch register at most. -/
theorem segmentCell_keeps {statics : String → Nat → Cell} {segment : Segment} {index : Nat}
    {file : String} {operand : Cell}
    (run : segmentCell .inCells statics segment index file ram = some (operand, after))
    (scratch : cell ≠ addressScratch) : after.read cell = ram.read cell := by
  have cells : segment ≠ .constant := by
    rintro rfl
    cases run
  obtain ⟨found, hFound⟩ := exists_operandCell cells
  obtain ⟨kept, finds, same⟩ := segmentCell_of_operandCell hFound
  cases finds.symm.trans run
  exact same cell fun _ => scratch

/-- A push changes the stack pointer, the cell that it points to, and the scratch register. -/
theorem access_push_keeps {statics : String → Nat → Cell} {segment : Segment} {index : Nat}
    {file : String}
    (run : access .inCells statics .push segment index file ram = some ((), after))
    (pointer : cell ≠ sp) (scratch : cell ≠ addressScratch)
    (top : cell ≠ cellOf (ram.read sp)) : after.read cell = ram.read cell := by
  rw [access] at run
  split at run
  · exact push_keeps run pointer top
  · obtain ⟨operand, mid, found, run⟩ := bind_eq_some.mp run
    have pointers : mid.read sp = ram.read sp := segmentCell_keeps found (by decide)
    rw [run_bind (run_load operand mid)] at run
    rw [push_keeps run pointer (pointers ▸ top), segmentCell_keeps found scratch]

end StackMachine

/-! ### Programs -/

namespace Program

/-- The symbols that the text of a program leaves to the assembler, in the order of their first
uses. -/
def variableNames (program : Program) : List String :=
  SourceText.freeSymbols (SourceText.lines program.text) (SourceText.lines program.text)

/-- The static variables that commands access, as they are read, in the order of first use. -/
def writtenStatics (commands : List Command) : List String :=
  (commands.flatMap Command.written).eraseDups

/-- A cell that an access to a static variable reaches. -/
def StaticCell (commands : List Command) (options : Options) (program : Program) (image : Image)
    (cell : Nat) : Prop :=
  ∃ (i : Nat) (op : StackOp) (index : Int32) (file : String),
    commands[i]? = some (.access op .staticVar index file) ∧
    program.AccessesCell options image i op cell

variable {commands : List Command} {options : Options} {program : Program} {image : Image}
  {lines : List Line} {i cell : Nat} {op : StackOp} {index : Int32} {file name : String}

theorem variableNames_eq (reads : readSource program.text = .ok lines) :
    program.variableNames = Lines.variableNames lines := by
  rw [readSource, SourceText.cleanLines_eq_lines] at reads
  exact SourceText.freeSymbols_eq reads reads

theorem mem_writtenStatics : name ∈ writtenStatics commands ↔
    ∃ (i : Nat) (op : StackOp) (index : Int32) (file : String),
      commands[i]? = some (.access op .staticVar index file) ∧
      name = writtenStatic file index := by
  rw [writtenStatics, List.mem_eraseDups, List.mem_flatMap]
  constructor
  · rintro ⟨c, among, own⟩
    obtain ⟨v, static, rfl⟩ := List.mem_map.mp own
    obtain ⟨op, index, file, rfl, rfl⟩ := Command.access_of_mem_statics static
    obtain ⟨i, found⟩ := List.getElem?_of_mem among
    exact ⟨i, op, index, file, found, rfl⟩
  · rintro ⟨i, op, index, file, found, rfl⟩
    exact ⟨_, List.mem_of_getElem? found, List.mem_singleton_self _⟩

theorem stem_of_getElem? (stems : ∀ c ∈ commands, c.Stem)
    (found : commands[i]? = some (.access op .staticVar index file)) : '/' ∉ file.toList :=
  stems _ (List.mem_of_getElem? found) (file, index.toInt.toNat) (List.mem_singleton_self _)

/-- The cell of a static variable is that of its place among the variables. -/
theorem accessesCell_rank (translated : ofCommands commands options = .ok program)
    (reads : readSource program.text = .ok lines) (placed : Lines.Assembled lines image.words)
    (stems : ∀ c ∈ commands, c.Stem)
    (undeclared : ∀ name ∈ writtenStatics commands,
      SourceText.labelLine name ∉ SourceText.lines program.text)
    (found : commands[i]? = some (.access op .staticVar index file)) :
    writtenStatic file index ∈ program.variableNames ∧ program.AccessesCell options image i op
      (16 + program.variableNames.idxOf (writtenStatic file index)) := by
  obtain ⟨⟨-, -, referred⟩, reaches⟩ :=
    accessesCell_static translated reads placed found (stem_of_getElem? stems found)
  have own : writtenStatic file index ∈ writtenStatics commands :=
    mem_writtenStatics.mpr ⟨i, op, index, file, found, rfl⟩
  have free := mem_variableNames_static reads referred (undeclared _ own)
  rw [Lines.address_variableNames free] at reaches
  rw [variableNames_eq reads]
  exact ⟨free, reaches⟩

/-- A program that declares the targets of its jumps has no variables but its static ones. -/
theorem variableNames_eq_writtenStatics (translated : ofCommands commands options = .ok program)
    (reads : readSource program.text = .ok lines) (placed : Lines.Assembled lines image.words)
    (closed : Closed commands options) (stems : ∀ c ∈ commands, c.Stem)
    (undeclared : ∀ name ∈ writtenStatics commands,
      SourceText.labelLine name ∉ SourceText.lines program.text) :
    program.variableNames = writtenStatics commands := by
  have unfixed : ∀ name ∈ commands.flatMap Command.written, Lines.fixed? lines name = none := by
    intro name own
    rw [← List.mem_eraseDups] at own
    obtain ⟨i, op, index, file, found, rfl⟩ := mem_writtenStatics.mp own
    have free := (accessesCell_rank translated reads placed stems undeclared found).1
    rw [variableNames_eq reads] at free
    exact (Lines.mem_variableNames.mp free).2
  rw [variableNames_eq reads, Lines.variableNames_eq,
    free_lines translated reads placed closed stems unfixed, writtenStatics]

/-- Static variables lie below the stack if and only if there are at most 240 of them. -/
theorem staticCell_le_iff (translated : ofCommands commands options = .ok program)
    (reads : readSource program.text = .ok lines) (placed : Lines.Assembled lines image.words)
    (closed : Closed commands options) (stems : ∀ c ∈ commands, c.Stem)
    (undeclared : ∀ name ∈ writtenStatics commands,
      SourceText.labelLine name ∉ SourceText.lines program.text) :
    (∀ cell, StaticCell commands options program image cell → cell ≤ 255) ↔
      (writtenStatics commands).length ≤ 240 := by
  have same := variableNames_eq_writtenStatics translated reads placed closed stems undeclared
  rw [← same, variableNames_eq reads, ← Lines.variables_lt_iff]
  constructor
  · intro below name inside
    rw [← variableNames_eq reads, same] at inside
    obtain ⟨i, op, index, file, found, rfl⟩ := mem_writtenStatics.mp inside
    have reaches :=
      (accessesCell_static translated reads placed found (stem_of_getElem? stems found)).2
    exact Nat.lt_succ_of_le (below _ ⟨i, op, index, file, found, reaches⟩)
  · rintro few cell ⟨i, op, index, file, found, reaches⟩
    obtain ⟨inside, reaches'⟩ := accessesCell_rank translated reads placed stems undeclared found
    rw [variableNames_eq reads] at inside reaches'
    rw [reaches.unique reaches', ← Lines.address_variableNames inside]
    exact Nat.le_of_lt_succ (few _ inside)

/-- The block of a push reads as a push, of a file as it is read. -/
theorem read_access {number : Nat} {block : Block} {segment : Segment} {part : List Line}
    (fragment : (Command.access op segment index file).fragment number = .ok block.body)
    (title : block.title = (Command.access op segment index file).text)
    (plain : (Command.access op segment index file).OneLine)
    (stem : (Command.access op segment index file).Stem)
    (reads : readSource block.text = .ok part) (placed : Lines.Assembled lines image.words)
    (inside : part ⊆ lines) : ∃ written, Lowering.access op segment index written = .ok part := by
  by_cases static : segment = .staticVar
  · subst static
    have single : '\n' ∉ file.toList := plain file (by simp [Command.names])
    have noSlash : '/' ∉ file.toList := stem (file, index.toInt.toNat) (List.mem_singleton_self _)
    obtain ⟨-, first, rfl, none⟩ :=
      read_staticAccess noSlash fragment title reads (placed.encodes inside)
    refine ⟨writtenFile file, staticAccess_eq_ok.mpr ⟨(staticAccess_eq_ok.mp fragment).1, ?_⟩⟩
    rw [none single, List.append_nil]
    rfl
  · have named : (Command.access op segment index file).Named := by
      simp [Command.Named, Command.names, static]
    exact ⟨file, read_wellSpelled (Command.wellSpelled_block named fragment title) reads ▸ fragment⟩

/-- A push runs through its block and changes the registers and the cell that the stack pointer
points to at most. -/
theorem steps_push (translated : ofCommands commands options = .ok program)
    (reads : readSource program.text = .ok lines) (placed : Lines.Assembled lines image.words)
    {segment : Segment} (found : commands[i]? = some (.access .push segment index file))
    (plain : (Command.access .push segment index file).OneLine)
    (stem : (Command.access .push segment index file).Stem) (s : Store) :
    ∃ n, ∃ t : Store, Cpu.Steps n (s.cpu image.words (program.commandAddress options i))
        (t.cpu image.words (program.commandAddress options (i + 1))) ∧
      ∀ cell, cell ≠ sp → cell ≠ addressScratch → cell ≠ cellOf (s.ram.read sp) →
        t.ram.read cell = s.ram.read cell := by
  obtain ⟨number, block, front, part, back, fragment, title, readPart, split, start, stop⟩ :=
    split_block translated reads found
  have loaded := placed.loaded split
  have inside : part ⊆ lines := by simp [split]
  obtain ⟨written, lowered⟩ := read_access fragment title plain stem readPart placed inside
  have performs : Performs lines part _ := performs_access lowered
  obtain ⟨t, same, steps⟩ := performs.steps loaded (performs.effect s)
  rw [stop, start] at steps
  refine ⟨_, t, steps, fun cell pointer scratch top => ?_⟩
  rw [same]
  exact access_push_keeps (performs.effect s) pointer scratch top

/-- Static variables lie from cell 16 on, in the order in which the program first uses its
variables. If it declares the targets of its jumps and calls, these are all its variables, and they
lie below the stack if and only if there are at most 240 of them. A push to the stack changes none
of the static variables below. -/
theorem static_area (translated : ofCommands commands options = .ok program)
    (assembled : assemble program.text = .ok image) (stems : ∀ c ∈ commands, c.Stem)
    (undeclared : ∀ name ∈ writtenStatics commands,
      SourceText.labelLine name ∉ SourceText.lines program.text) :
    (∀ (i : Nat) op index file, commands[i]? = some (.access op .staticVar index file) →
      writtenStatic file index ∈ program.variableNames ∧
      program.AccessesCell options image i op
        (16 + program.variableNames.idxOf (writtenStatic file index))) ∧
    (Closed commands options →
      program.variableNames = writtenStatics commands ∧
      ((∀ cell, StaticCell commands options program image cell → cell ≤ 255) ↔
        (writtenStatics commands).length ≤ 240) ∧
      ∀ (i : Nat) segment index file,
        commands[i]? = some (.access .push segment index file) →
        ∀ s : Store, 256 ≤ (cellOf (s.ram.word 0)).toNat → ∃ n, ∃ t : Store,
          Cpu.Steps n (s.cpu image.words (program.commandAddress options i))
            (t.cpu image.words (program.commandAddress options (i + 1))) ∧
          ∀ cell, StaticCell commands options program image cell → cell ≤ 255 →
            t.ram.word cell = s.ram.word cell) := by
  obtain ⟨lines, reads, placed⟩ := exists_assembled assembled
  refine ⟨fun i op index file found =>
    accessesCell_rank translated reads placed stems undeclared found, fun closed => ⟨?_, ?_, ?_⟩⟩
  · exact variableNames_eq_writtenStatics translated reads placed closed stems undeclared
  · exact staticCell_le_iff translated reads placed closed stems undeclared
  · intro i segment index file found s above
    have among := List.mem_of_getElem? found
    obtain ⟨n, t, steps, kept⟩ := steps_push translated reads placed found
      (closed.oneLine _ among) (stems _ among) s
    refine ⟨n, t, steps, ?_⟩
    rintro cell ⟨j, op, index', file', accessed, reaches⟩ below
    have least : 16 ≤ cell := by
      rw [reaches.unique (accessesCell_rank translated reads placed stems undeclared accessed).2]
      exact Nat.le_add_right _ _
    have number : (BitVec.ofNat 15 cell).toNat = cell := by
      rw [BitVec.toNat_ofNat]
      omega
    refine kept _ ?_ ?_ ?_
    · intro same
      have zero : cell = 0 := number.symm.trans (congrArg BitVec.toNat same)
      omega
    · intro same
      have scratch : cell = 13 := number.symm.trans (congrArg BitVec.toNat same)
      omega
    · intro same
      have top : cell = (cellOf (s.ram.word 0)).toNat :=
        number.symm.trans (congrArg BitVec.toNat same)
      omega

/-- Two files with one variable each, in a loop. -/
def closedLoop : List Command :=
  [.label "loop", .access .push .staticVar 0 "Main", .access .pop .staticVar 1 "My File",
    .goto "LOOP"]

def closedLoopLines : List Line :=
  [.label "LOOP"] ++ pushNamed "Main.0" ++ popData ++ [symbol "MyFile.1", assign "M" "D"] ++
    goto "LOOP" ++ endLoop 0

theorem static_area_closedLoop : ∃ program image,
    ofCommands closedLoop {} = .ok program ∧ assemble program.text = .ok image ∧
      program.variableNames = ["Main.0", "MyFile.1"] ∧
      program.AccessesCell {} image 2 .pop 17 ∧
      ∀ cell, StaticCell closedLoop {} program image cell → cell ≤ 255 := by
  obtain ⟨program, translated⟩ : ∃ program, ofCommands closedLoop {} = .ok program := ⟨_, rfl⟩
  have reads : readSource program.text = .ok closedLoopLines := by
    rw [readSource, text, cleanLines_unlines]
    cases translated
    decide +kernel
  have assembled : assemble program.text = .ok
      ⟨#[16, 0xFC10, 0, 0xFC20, 0xE308, 0, 0xFDC8, 0, 0xFC88, 0xFC20, 0xFC10, 17, 0xE308, 0,
        0xEA87, 15, 0xEA87]⟩ :=
    assemble_eq_ok_iff.mpr ⟨closedLoopLines, reads, ⟨by decide, by decide, by decide⟩, by rfl⟩
  have undeclared : ∀ name ∈ writtenStatics closedLoop,
      SourceText.labelLine name ∉ SourceText.lines program.text := by
    rw [← SourceText.cleanLines_eq_lines, text, cleanLines_unlines]
    cases translated
    decide +kernel
  have closed : Closed closedLoop {} := ⟨by decide, by decide, by decide⟩
  obtain ⟨ranked, area⟩ := static_area translated assembled (by decide) undeclared
  obtain ⟨names, below, -⟩ := area closed
  have written : writtenStatics closedLoop = ["Main.0", "MyFile.1"] := by decide
  rw [written] at names below
  have reaches := (ranked 2 .pop 1 "My File" rfl).2
  rw [names] at reaches
  exact ⟨program, _, translated, assembled, names, reaches, below.mpr (by decide)⟩

/-- One file with 241 variables. -/
def crowdedFile : List Command :=
  (List.range 241).map fun n => .access .push .staticVar (Int32.ofNat n) "Main"

theorem straightLine_crowdedFile : ∀ c ∈ crowdedFile, c.StraightLine := by decide +kernel

theorem nodup_mainSymbols (count : Nat) :
    ((List.range count).map (staticSymbol "Main")).Nodup :=
  List.nodup_range.map fun _ _ same => (staticSymbol_injective same).2

theorem writtenStatics_crowdedFile :
    writtenStatics crowdedFile = (List.range 241).map (staticSymbol "Main") := by
  have file : writtenFile "Main" = "Main" := by decide
  have index : ∀ n < 241, (Int32.ofNat n).toInt.toNat = n := by decide +kernel
  have symbols : crowdedFile.flatMap Command.written =
      (List.range 241).map (staticSymbol "Main") := by
    rw [crowdedFile, List.flatMap_map, List.map_eq_flatMap]
    refine List.flatMap_congr fun n inside => ?_
    show [staticSymbol (writtenFile "Main") (Int32.ofNat n).toInt.toNat] = _
    rw [file, index n (List.mem_range.mp inside)]
  rw [writtenStatics, symbols, Lines.eraseDups_of_nodup (nodup_mainSymbols 241)]

/-- Its last variable lies in the first cell of the stack. -/
theorem crowdedFile_reaches_stack : ∃ program image,
    ofCommands crowdedFile {} = .ok program ∧ assemble program.text = .ok image ∧
      Closed crowdedFile {} ∧ (∀ name ∈ writtenStatics crowdedFile,
        SourceText.labelLine name ∉ SourceText.lines program.text) ∧
      program.AccessesCell {} image 240 .push Platform.stackBase := by
  obtain ⟨program, translated⟩ := (exists_ofCommands straightLine_crowdedFile).resolve_right
    fun full => absurd full.1 (by decide +kernel)
  have named : ∀ c ∈ crowdedFile, c.Named := fun c inside =>
    (straightLine_crowdedFile c inside).named
  have short : (program.blocks.flatMap Block.instructions).length ≤ 32767 := by
    have all : (ofCommands crowdedFile {}).toOption.any
        fun program => (program.blocks.flatMap Block.instructions).length ≤ 32767 := by
      decide +kernel
    rw [translated] at all
    exact of_decide_eq_true all
  have few : (crowdedFile.flatMap Command.statics).toFinset.card ≤ 32752 :=
    (List.toFinset_card_le _).trans (by decide +kernel)
  obtain ⟨image, assembled⟩ := exists_assemble_of_fits translated named
    (fits_of_straightLine straightLine_crowdedFile few translated short)
  obtain ⟨lines, reads, placed⟩ := exists_assembled assembled
  have linked : Linked crowdedFile {} program lines image.words :=
    ⟨translated, named, reads, placed⟩
  have closed : Closed crowdedFile {} :=
    ⟨fun c inside => (named c inside).oneLine, by decide +kernel, by decide⟩
  have undeclared : ∀ name ∈ writtenStatics crowdedFile,
      SourceText.labelLine name ∉ SourceText.lines program.text := by
    intro name own inside
    obtain ⟨i, op, index, file, -, rfl⟩ := mem_writtenStatics.mp own
    have read := reads
    rw [readSource, SourceText.cleanLines_eq_lines] at read
    exact linked.undeclared_static straightLine_crowdedFile _ _
      ((SourceText.labelLine_mem read).mp inside)
  have stems : ∀ c ∈ crowdedFile, c.Stem := by decide +kernel
  have reaches := (accessesCell_rank translated reads placed stems undeclared
    (show crowdedFile[240]? = some (.access .push .staticVar 240 "Main") by decide +kernel)).2
  have inside : 240 < ((List.range 241).map (staticSymbol "Main")).length := by simp
  have last : ((List.range 241).map (staticSymbol "Main"))[240] = writtenStatic "Main" 240 := by
    rw [List.getElem_map, List.getElem_range]
    decide
  rw [variableNames_eq_writtenStatics translated reads placed closed stems undeclared,
    writtenStatics_crowdedFile, ← last, (nodup_mainSymbols 241).idxOf_getElem] at reaches
  exact ⟨program, image, translated, assembled, closed, undeclared, reaches⟩

end Program

end HackToolchain
