import HackToolchain.Listing
import HackToolchain.Proofs.Lowering.ParsedBlocks
import Mathlib.Algebra.GroupWithZero.Nat

/-! Three views of the lines of a program: those of the translation, those of a listing, which looks
at how lines begin and end, and those that the assembler cleans and reads. They agree on programs of
commands that were read from sources, whatever characters the names in them have. -/

namespace HackToolchain

/-! ### Text -/

namespace Text

/-- A line without a carriage return at its end. -/
def chomp (line : List Char) : List Char :=
  if line.getLast? = some '\r' then line.dropLast else line

/-- White space that is only spaces. -/
def Spaced (text : List Char) : Prop := ∀ c ∈ text, isBlank c → c = ' '

theorem spaced_iff (text : List Char) :
    Spaced text ↔ text.all fun c => ! isBlank c || c == ' ' := by
  rw [Spaced, List.all_eq_true]
  refine forall₂_congr fun c _ => ?_
  cases isBlank c <;> simp

instance : DecidablePred Spaced := fun text => decidable_of_iff _ (spaced_iff text).symm

theorem Solid.spaced {word : List Char} (h : Solid word) : Spaced word := by
  intro c inside blank
  rw [h.unbroken c inside] at blank
  cases blank

theorem Spaced.not_mem {text : List Char} (h : Spaced text) {c : Char} (blank : isBlank c)
    (other : c ≠ ' ') : c ∉ text := fun inside => other (h c inside blank)

theorem spaced_append {front back : List Char} :
    Spaced (front ++ back) ↔ Spaced front ∧ Spaced back := List.forall_mem_append

theorem spaced_intercalate {words : List String} (solid : ∀ word ∈ words, Solid word.toList) :
    Spaced (" ".intercalate words).toList := by
  induction words with
  | nil => simp [Spaced]
  | cons word rest ih =>
    obtain ⟨here, later⟩ := List.forall_mem_cons.mp solid
    by_cases last : rest = []
    · rw [last, String.intercalate_singleton]
      exact here.spaced
    · rw [String.intercalate_cons_of_ne_nil last, String.toList_append, String.toList_append]
      exact spaced_append.mpr ⟨spaced_append.mpr ⟨here.spaced, by simp [Spaced]⟩, ih later⟩

theorem Spaced.chomp {line : List Char} (h : Spaced line) : chomp line = line :=
  if_neg fun last => h.not_mem (by decide) (by decide) (List.mem_of_getLast? last)

end Text

/-! ### Listings -/

namespace Listing

/-- Whether a line is neither a comment nor the declaration of a label, by how it begins. -/
def isInstruction (line : String) : Bool :=
  ! ['/', '/'].isPrefixOf line.toList && ! ['('].isPrefixOf line.toList

def instructions (lines : List String) : List String := lines.filter isInstruction

theorem toList_comment (rest : String) :
    ("// " ++ rest).toList = '/' :: '/' :: ' ' :: rest.toList := String.toList_append

theorem isInstruction_comment (rest : String) : isInstruction ("// " ++ rest) = false := by
  rw [isInstruction, toList_comment]
  rfl

theorem declared?_comment (rest : String) : declared? ("// " ++ rest) = none := by
  rw [declared?, toList_comment]
  rfl

end Listing

namespace Line.Written

variable {line : Line}

/-- Only the declaration of a label begins with a parenthesis. -/
theorem opens_iff (h : line.Written) :
    line.text.toList.head? = some '(' ↔ line.instruction? = none := by
  match line with
  | label name =>
    rw [toList_text_label]
    exact ⟨fun _ => rfl, fun _ => rfl⟩
  | instruction (.address (.literal value)) =>
    rw [toList_text_literal]
    exact ⟨nofun, nofun⟩
  | instruction (.address (.symbol name)) =>
    rw [toList_text_symbol]
    exact ⟨nofun, nofun⟩
  | instruction (.compute dest comp jmp) =>
    obtain ⟨c, rest, split⟩ := List.exists_cons_of_ne_nil h.solid.nonempty
    have mnemonic : isMnemonicChar c := compute_text_head h split
    rw [split, List.head?_cons, Option.some.injEq]
    refine ⟨fun opens => ?_, nofun⟩
    subst opens
    exact absurd mnemonic (by decide)

theorem isInstruction_text (h : line.Written) :
    SourceText.isInstruction line.text.toList = line.instruction?.isSome := by
  rw [SourceText.isInstruction, Bool.eq_iff_iff, Bool.not_eq_true', beq_eq_false_iff_ne, ne_eq,
    h.opens_iff, ← ne_eq, Option.isSome_iff_ne_none]

/-- A line that is no comment is listed as an instruction if the assembler takes it for one. -/
theorem isInstruction_listed (h : line.Written) :
    Listing.isInstruction line.text = SourceText.isInstruction line.text.toList := by
  have uncommented : ['/', '/'].isPrefixOf line.text.toList = false := by
    rw [← Bool.not_eq_true, List.isPrefixOf_iff_prefix]
    exact fun comment => h.solid.uncut comment.isInfix
  rw [Listing.isInstruction, uncommented, SourceText.isInstruction]
  cases line.text.toList with
  | nil => rfl
  | cons c rest => simp [List.isPrefixOf, eq_comm]

theorem declared?_text (h : line.Written) : Listing.declared? line.text = line.label? := by
  cases line with
  | label name =>
    rw [Listing.declared?, toList_text_label]
    simp [label?]
  | instruction i =>
    have opens : (instruction i).text.toList.head? ≠ some '(' := fun opens =>
      nomatch h.opens_iff.mp opens
    rw [Listing.declared?]
    split
    · next inner split =>
      rw [split] at opens
      exact absurd rfl opens
    · rfl

end Line.Written

/-! ### Blocks -/

namespace Block

variable {block : Block}

/-- The white space in the lines of a block is in its comments. -/
theorem Written.spaced (h : block.Written) (title : Text.Spaced block.title.toList) :
    ∀ line ∈ block.lines, Text.Spaced line.toList := by
  have comment : ∀ mark : String, Text.Spaced mark.toList →
      Text.Spaced (mark ++ block.title).toList := by
    intro mark plain
    rw [String.toList_append]
    exact Text.spaced_append.mpr ⟨plain, title⟩
  have first : Text.Spaced "// begin ".toList := by decide
  have last : Text.Spaced "// end ".toList := by decide
  rw [lines, List.forall_mem_append, List.forall_mem_cons, List.forall_mem_map,
    List.forall_mem_singleton]
  exact ⟨⟨comment _ first, fun line inside => (h.body line inside).solid.spaced⟩, comment _ last⟩

theorem lines_eq_comments (block : Block) : block.lines =
    ("// " ++ ("begin " ++ block.title)) :: block.body.map Line.text ++
      ["// " ++ ("end " ++ block.title)] := by
  rw [lines, ← String.append_assoc, ← String.append_assoc]
  rfl

/-- The lines that are listed as instructions are the text of the instructions. -/
theorem map_text_code {body : List Line} (written : ∀ line ∈ body, line.Written) :
    (body.filter fun line => Listing.isInstruction line.text).map Line.text =
      (Lines.code body).map Instruction.text := by
  induction body with
  | nil => rfl
  | cons line body ih =>
    obtain ⟨here, later⟩ := List.forall_mem_cons.mp written
    have kind : Listing.isInstruction line.text = line.instruction?.isSome := by
      rw [here.isInstruction_listed, here.isInstruction_text]
    cases line with
    | label name =>
      rw [List.filter_cons_of_neg (by simp [kind, Line.instruction?]), ih later,
        Lines.code_label]
    | instruction i =>
      rw [List.filter_cons_of_pos (by simp [kind, Line.instruction?]), List.map_cons, ih later,
        Lines.code_instruction, List.map_cons, Line.text]

theorem instructions_lines (block : Block) : Listing.instructions block.lines =
    (block.body.filter fun line => Listing.isInstruction line.text).map Line.text := by
  rw [lines_eq_comments, Listing.instructions, List.filter_append, List.filter_cons_of_neg,
    List.filter_singleton, Listing.isInstruction_comment, List.filter_map]
  · exact List.append_nil _
  · rw [Listing.isInstruction_comment]
    exact Bool.false_ne_true

/-- The instructions that are listed are those of the block, and the lines that the assembler takes
for instructions. -/
theorem Written.instructions_lines (h : block.Written) :
    Listing.instructions block.lines = block.instructions.map Instruction.text ∧
      (Listing.instructions block.lines).map String.toList =
        (SourceText.lines block.text).filter SourceText.isInstruction := by
  rw [block.instructions_lines]
  refine ⟨map_text_code h.body, ?_⟩
  rw [← SourceText.cleanLines_eq_lines, h.cleanLines, List.filter_map, List.map_map]
  refine congrArg _ (List.filter_congr fun line inside => ?_)
  exact (h.body line inside).isInstruction_listed

theorem Written.declaredLabels_lines (h : block.Written) :
    Listing.declaredLabels block.lines = Lines.declared block.body := by
  rw [lines_eq_comments, Listing.declaredLabels, List.filterMap_append, List.filterMap_cons_none
    (Listing.declared?_comment _), List.filterMap_cons_none (Listing.declared?_comment _),
    List.filterMap_nil, List.append_nil, List.filterMap_map, Lines.declared]
  exact List.filterMap_congr fun line inside => (h.body line inside).declared?_text

end Block

/-! ### The first pass -/

namespace Layout

/-- The labels that the first pass defines from a layout on, up to a line that it rejects. -/
def definitions (layout : Layout) : List (Nat × List Char) → List String
  | [] => []
  | (number, text) :: rest =>
    match Line.read text, layout.addText number text with
    | .ok line, .ok after => line.label?.toList ++ after.definitions rest
    | _, _ => []

theorem definitions_eq_declared {numbered : List (Nat × List Char)} {layout final : Layout}
    {lines : List Line}
    (runs : numbered.foldlM (fun layout (number, text) =>
      atLine number (layout.addText number text)) layout = .ok final)
    (reads : (numbered.map (·.2)).mapM Line.read = .ok lines) :
    layout.definitions numbered = Lines.declared lines := by
  induction numbered generalizing layout lines with
  | nil =>
    cases reads
    rfl
  | cons entry rest ih =>
    obtain ⟨number, text⟩ := entry
    obtain ⟨line, others, read, later, rfl⟩ := mapM_cons_eq_ok.mp reads
    rw [List.foldlM_cons] at runs
    obtain ⟨after, added, goesOn⟩ := Except.bind_eq_ok.mp runs
    rw [definitions, read, atLine_eq_ok.mp added]
    dsimp only
    rw [ih goesOn later]
    cases line <;> rfl

end Layout

/-! ### Programs -/

/-- The words of a command that was read are solid. -/
theorem Command.Parsed.solid_words {c : Command} (h : c.Parsed) :
    ∀ word ∈ c.words, Text.Solid word.toList := by
  obtain ⟨source, file, commands, -, parses, inside⟩ := h
  exact (printable_of_parse parses c inside).solid

theorem Session.Step.spaced_title {s : Step} {number : Nat} {block : Block}
    (parsed : ∀ c, s = .command c → c.Parsed) (made : s.make number = .ok block) :
    Text.Spaced block.title.toList := by
  have own : ∀ title ∈ ["bootstrap", "end program"], Text.Spaced title.toList := by decide
  cases s with
  | command c =>
    rw [(Command.block_eq_ok.mp made).2]
    exact Text.spaced_intercalate (parsed c rfl).solid_words
  | bootstrap | endProgram =>
    cases made
    exact own _ (by simp)

namespace Program

variable {commands : List Command} {options : Options} {program : Program} {image : Image} {n : Nat}

theorem spaced_lines (translated : ((Session.program commands options).run.run n).1 = .ok program)
    (parsed : ∀ c ∈ commands, c.Parsed) : ∀ line ∈ program.lines, Text.Spaced line.toList := by
  intro line inside
  obtain ⟨block, among, own⟩ := List.mem_flatMap.mp inside
  obtain ⟨s, number, made, command⟩ := Session.exists_make_of_mem_blocks translated among
  have read : ∀ c, s = .command c → c.Parsed := fun c same => parsed c (command c same)
  exact (Session.Step.written_make read made).spaced (Session.Step.spaced_title read made) line own

theorem declaredLabels_lines (written : ∀ block ∈ program.blocks, block.Written) :
    Listing.declaredLabels program.lines = Lines.declared program.body := by
  rw [Listing.declaredLabels, lines, List.filterMap_flatMap, Lines.declared, body,
    List.filterMap_flatMap]
  exact List.flatMap_congr fun block among => (written block among).declaredLabels_lines

/-- The first pass defines the labels that a listing declares. -/
theorem definitions_eq_declaredLabels (written : ∀ block ∈ program.blocks, block.Written)
    (assembled : assemble program.text = .ok image) :
    (∃ layout, Layout.ofSource program.text = .ok layout) ∧
      Layout.definitions {} (Layout.sourceLines program.text) =
        Listing.declaredLabels program.lines := by
  obtain ⟨assembly, runs, -⟩ := Except.map_eq_ok.mp assembled
  obtain ⟨layout, first, -⟩ := Except.bind_eq_ok.mp runs
  obtain ⟨lines, reads, -, -⟩ := assemble_eq_ok_iff.mp assembled
  refine ⟨⟨layout, first⟩, ?_⟩
  rw [declaredLabels_lines written, ← declared_of_readSource written reads]
  rw [readSource, ← Layout.sourceLines_snd] at reads
  exact Layout.definitions_eq_declared first reads

/-- The words that the assembler gives the instruction lines of a block. -/
def blockWords (program : Program) (block : Block) : List (Option Word) :=
  ((SourceText.lines block.text).filter SourceText.isInstruction).map
    (SourceText.word? (SourceText.lines program.text))

/-- How many instructions a listing shows in blocks. -/
def listedSize (blocks : List Block) : Nat :=
  (blocks.map fun block => (Listing.instructions block.lines).length).sum

theorem length_blockWords (program : Program) {block : Block} (written : block.Written) :
    (program.blockWords block).length = (Listing.instructions block.lines).length := by
  rw [blockWords, List.length_map, ← written.instructions_lines.2, List.length_map]

theorem length_flatMap_blockWords {blocks : List Block}
    (written : ∀ block ∈ blocks, block.Written) :
    (blocks.flatMap program.blockWords).length = listedSize blocks := by
  rw [List.length_flatMap, listedSize]
  exact congrArg _ (List.map_congr_left fun block among =>
    program.length_blockWords (written block among))

theorem blockAddress_eq_length (program : Program) (k : Nat) :
    program.blockAddress k = ((program.blocks.take k).flatMap program.blockWords).length := by
  rw [blockAddress, lines_text_eq_flatMap, List.filter_flatMap]
  simp only [List.length_flatMap, blockWords, List.length_map]

/-- The machine code is made of the words of the blocks in order. -/
theorem words_eq_flatMap (assembled : assemble program.text = .ok image) :
    image.words.toList.map some = program.blocks.flatMap program.blockWords := by
  have split : (SourceText.lines program.text).filter SourceText.isInstruction =
      program.blocks.flatMap fun block =>
        (SourceText.lines block.text).filter SourceText.isInstruction := by
    rw [lines_text_eq_flatMap, List.filter_flatMap]
  rw [← (SourceText.words_of_assemble assembled).1, split, List.map_flatMap]
  rfl

/-- The words of a block start at its address. -/
theorem words_at_blockAddress (assembled : assemble program.text = .ok image) {k : Nat}
    {block : Block} (there : program.blocks[k]? = some block) :
    ((image.words.toList.drop (program.blockAddress k)).take
      (program.blockWords block).length).map some = program.blockWords block := by
  obtain ⟨inside, rfl⟩ := List.getElem?_eq_some_iff.mp there
  have whole : image.words.toList.map some =
      (program.blocks.take k).flatMap program.blockWords ++
        (program.blockWords program.blocks[k] ++
          (program.blocks.drop (k + 1)).flatMap program.blockWords) := by
    rw [words_eq_flatMap assembled, ← List.flatMap_cons, ← List.flatMap_append,
      ← List.drop_eq_getElem_cons inside, List.take_append_drop]
  rw [List.map_take, List.map_drop, whole, blockAddress_eq_length, List.drop_left, List.take_left]

/-- Whatever characters the names of commands have that were read from sources, the text of their
program splits into its lines, a listing of which declares the labels that the first pass defines,
and each block has as many words of the machine code as a listing of it shows instructions. -/
theorem line_views_agree
    (translated : ((Session.program commands options).run.run n).1 = .ok program)
    (parsed : ∀ c ∈ commands, c.Parsed) (assembled : assemble program.text = .ok image) :
    (Text.lines program.text.toList = program.lines.map String.toList ∧
      (Text.lines program.text.toList).map Text.chomp = program.lines.map String.toList ∧
      ∀ line ∈ program.lines, Text.Spaced line.toList) ∧
    ((∃ layout, Layout.ofSource program.text = .ok layout) ∧
      Layout.definitions {} (Layout.sourceLines program.text) =
        Listing.declaredLabels program.lines) ∧
    (∀ k block, program.blocks[k]? = some block →
      Listing.instructions block.lines = block.instructions.map Instruction.text ∧
      (program.blockWords block).length = (Listing.instructions block.lines).length ∧
      program.blockAddress k = listedSize (program.blocks.take k) ∧
      ((image.words.toList.drop (program.blockAddress k)).take
        (Listing.instructions block.lines).length).map some = program.blockWords block) ∧
    image.words.toList.map some = program.blocks.flatMap program.blockWords ∧
    image.size = listedSize program.blocks := by
  have written := written_blocks translated parsed
  have spaced := spaced_lines translated parsed
  have splits : Text.lines program.text.toList = program.lines.map String.toList :=
    lines_unlines fun line inside => (spaced line inside).not_mem (by decide) (by decide)
  have words := words_eq_flatMap assembled
  refine ⟨⟨splits, ?_, spaced⟩, definitions_eq_declaredLabels written assembled,
    fun k block there => ?_, words, ?_⟩
  · rw [splits, List.map_map]
    exact List.map_congr_left fun line inside => (spaced line inside).chomp
  · have among := List.mem_of_getElem? there
    have length := program.length_blockWords (written block among)
    have words := words_at_blockAddress assembled there
    rw [length] at words
    refine ⟨(written block among).instructions_lines.1, length, ?_, words⟩
    rw [blockAddress_eq_length, length_flatMap_blockWords]
    exact fun block early => written block (List.mem_of_mem_take early)
  · have length := congrArg List.length words
    rw [List.length_map, length_flatMap_blockWords written] at length
    exact length

/-- A source with a name that is longer in upper case, and a comment. -/
def sharpSource : String := "label stra\u00dfe // no symbol\ngoto STRASSE\n"

def otherSource : String := "push static 3\n"

def sharpCommands : List Command :=
  [.label "stra\u00dfe", .goto "STRASSE", .access .push .staticVar 3 "Other"]

/-- The comments of a block hold a name that no line of code could hold. -/
theorem line_views_agree_sharp : ∃ program image,
    Command.parse sharpSource "Main" = .ok (sharpCommands.take 2) ∧
    Command.parse otherSource "Other" = .ok (sharpCommands.drop 2) ∧
    ((Session.program sharpCommands ⟨false, false⟩).run.run 0).1 = .ok program ∧
    assemble program.text = .ok image ∧ "// begin label stra\u00dfe" ∈ program.lines ∧
    Text.lines program.text.toList = program.lines.map String.toList ∧
    Layout.definitions {} (Layout.sourceLines program.text) = ["STRASSE"] ∧
    program.blockAddress 2 = 2 ∧ image.size = 9 := by
  have parses : Command.parse sharpSource "Main" = .ok (sharpCommands.take 2) := by
    rfl
  have parsesOther : Command.parse otherSource "Other" = .ok (sharpCommands.drop 2) := by
    rfl
  have parsed : ∀ c ∈ sharpCommands, c.Parsed := by
    intro c inside
    rw [← List.take_append_drop 2 sharpCommands, List.mem_append] at inside
    rcases inside with first | second
    · exact ⟨_, _, _, by decide, parses, first⟩
    · exact ⟨_, _, _, by decide, parsesOther, second⟩
  obtain ⟨program, translated⟩ : ∃ program,
      ((Session.program sharpCommands ⟨false, false⟩).run.run 0).1 = .ok program := ⟨_, rfl⟩
  have wellSpelled : ∀ block ∈ program.blocks, block.WellSpelled := by
    have both : ∀ block ∈ program.blocks,
        '\n' ∉ block.title.toList ∧ ∀ line ∈ block.body, line.WellSpelled := by
      cases translated
      decide
    exact fun block among => ⟨(both block among).1, (both block among).2⟩
  have reads : readSource program.text = .ok program.body := by
    have none : Lines.literals program.body = [] := by
      cases translated
      rfl
    refine (readSource_text wellSpelled).mpr ⟨rfl, fun value inside => ?_⟩
    have literal := Lines.mem_literals.mpr inside
    rw [none] at literal
    cases literal
  have assembled : assemble program.text =
      .ok ⟨#[0, 0xEA87, 16, 0xFC10, 0, 0xFC20, 0xE308, 0, 0xFDC8]⟩ := by
    refine assemble_eq_ok_iff.mpr ⟨_, reads, ?_, ?_⟩
    · cases translated
      exact ⟨by decide, by decide, by decide⟩
    · cases translated
      rfl
  obtain ⟨⟨splits, -, -⟩, ⟨-, defined⟩, blocks, -, -⟩ :=
    line_views_agree translated parsed assembled
  obtain ⟨block, there⟩ : ∃ block, program.blocks[2]? = some block := by
    cases translated
    exact ⟨_, rfl⟩
  obtain ⟨-, -, address, -⟩ := blocks 2 block there
  refine ⟨program, _, parses, parsesOther, translated, assembled, ?_, splits, ?_, ?_, rfl⟩
  · cases translated
    decide
  · rw [defined]
    cases translated
    rfl
  · rw [address]
    cases translated
    rfl

end Program

end HackToolchain
