import HackToolchain.Proofs.Command.RoundTrip
import HackToolchain.Proofs.Lowering.Counters
import HackToolchain.Proofs.Lowering.FrameBlocks

/-! The text of commands that were read from a source. Their names are words, also in upper case, so
every line of a block is a line of the text as it stands, and the labels of the text are those that
the blocks declare. The names need not be symbols for this. -/

namespace HackToolchain

/-! ### Words in a line -/

namespace Text

variable {word rest line : List Char}

theorem solid_of_isSymbol (h : isSymbol word) : Solid word :=
  solid_of_plain (isSymbol_ne_nil h) fun c inside =>
    Line.plain_of_isSymbolChar (isSymbol_all h c inside)

theorem Solid.cons {mark : Char} (visible : isMark mark) (h : Solid word) :
    Solid (mark :: word) := by
  rw [isMark, Bool.and_eq_true, decide_eq_true_eq, Bool.not_eq_true'] at visible
  refine ⟨List.cons_ne_nil _ _, List.forall_mem_cons.mpr ⟨visible.2, h.unbroken⟩, fun pair => ?_⟩
  rcases List.infix_cons_iff.mp pair with first | later
  · exact visible.1 (List.cons_prefix_cons.mp first).1.symm
  · exact h.uncut later

theorem Solid.append (h : Solid word) (plain : ∀ c ∈ rest, c ≠ '/' ∧ isBlank c = false) :
    Solid (word ++ rest) := by
  refine solid_iff.mpr ⟨by simp [h.nonempty], ?_, ?_⟩
  · rw [List.all_eq_true]
    intro c inside
    rcases List.mem_append.mp inside with front | back
    · simp [h.unbroken c front]
    · simp [(plain c back).2]
  · rw [code_append word fun slash => (plain _ slash).1 rfl, if_pos (code_eq_self h.uncut)]

theorem Solid.cleanLines (h : Solid line) : cleanLines line = [line] := by
  rw [cleanLines_of_not_mem h.feed_not_mem, clean, code_eq_self h.uncut,
    unspaced_eq_self h.unbroken, if_neg h.nonempty]

/-! ### Words in upper case -/

theorem infix_of_slash_not_mem (slash : '/' ∉ word) (pair : ['/', '/'] <:+: word ++ rest) :
    ['/', '/'] <:+: rest := by
  induction word with
  | nil => exact pair
  | cons c word ih =>
    rw [List.mem_cons, not_or] at slash
    rcases List.infix_cons_iff.mp pair with first | later
    · exact absurd (List.cons_prefix_cons.mp first).1 slash.1
    · exact ih slash.2 later

/-- Two slashes that are next to each other in upper case were so before. -/
theorem infix_of_flatMap_upperChar (pair : ['/', '/'] <:+: word.flatMap upperChar) :
    ['/', '/'] <:+: word := by
  induction word with
  | nil => exact pair
  | cons c word ih =>
    have later : ['/', '/'] <:+: word.flatMap upperChar → ['/', '/'] <:+: c :: word :=
      fun pair => (ih pair).trans (List.suffix_cons c word).isInfix
    rw [List.flatMap_cons] at pair
    by_cases slash : c = '/'
    · subst slash
      have own : upperChar '/' = ['/'] := by decide
      rw [own, List.singleton_append] at pair
      rcases List.infix_cons_iff.mp pair with first | inside
      · obtain ⟨-, next⟩ := List.cons_prefix_cons.mp first
        cases word with
        | nil => simp at next
        | cons d word =>
          obtain ⟨e, back, split⟩ := List.exists_cons_of_ne_nil (Lowering.upperChar_ne_nil d)
          rw [List.flatMap_cons, split, List.cons_append, List.cons_prefix_cons] at next
          obtain rfl : d = '/' := by
            by_contra plain
            exact Lowering.slash_not_mem_upperChar plain (by simp [split, ← next.1])
          exact (List.prefix_append ['/', '/'] word).isInfix
      · exact later inside
    · exact later (infix_of_slash_not_mem (Lowering.slash_not_mem_upperChar slash) pair)

/-- A word is a word in upper case. -/
theorem Solid.upper {name : String} (h : Solid name.toList) : Solid (upper name).toList := by
  rw [Text.upper, String.toList_ofList]
  refine ⟨?_, fun d inside => ?_, fun pair => h.uncut (infix_of_flatMap_upperChar pair)⟩
  · obtain ⟨c, rest, split⟩ := List.exists_cons_of_ne_nil h.nonempty
    simp [split, Lowering.upperChar_ne_nil]
  · obtain ⟨c, own, upper⟩ := List.mem_flatMap.mp inside
    exact Lowering.isBlank_upperChar (h.unbroken c own) upper

end Text

/-! ### Lines with words for names -/

namespace Line

/-- A line whose names are words and whose mnemonics are known. -/
def Written : Line → Prop
  | instruction (.address (.literal _)) => True
  | instruction (.address (.symbol name)) => Text.Solid name.toList
  | instruction (.compute dest comp jmp) => Mnemonic.Known dest comp jmp
  | label name => Text.Solid name.toList

theorem WellSpelled.written {line : Line} (h : line.WellSpelled) : line.Written := by
  match line with
  | instruction (.address (.literal value)) => trivial
  | instruction (.address (.symbol name)) | label name => exact Text.solid_of_isSymbol h
  | instruction (.compute dest comp jmp) => exact h

theorem Written.solid {line : Line} (h : line.Written) : Text.Solid line.text.toList := by
  match line with
  | instruction (.address (.literal value)) =>
    exact Text.solid_of_plain (plain_literal value).1 (plain_literal value).2
  | instruction (.address (.symbol name)) =>
    rw [toList_text_symbol]
    exact Text.Solid.cons (by decide) h
  | instruction (.compute dest comp jmp) =>
    exact Text.solid_of_plain (plain_compute h).1 (plain_compute h).2
  | label name =>
    rw [toList_text_label]
    exact Text.Solid.cons (by decide)
      (Text.Solid.append h (List.forall_mem_singleton.mpr (by decide)))

/-- What is read for a line declares the label that the line declares. -/
theorem Written.label?_of_read {line read : Line} (h : line.Written)
    (reads : Line.read line.text.toList = .ok read) : read.label? = line.label? := by
  match line with
  | instruction (.address (.literal value)) =>
    rw [toList_text_literal, read_address] at reads
    obtain ⟨operand, -, rfl⟩ := reads
    rfl
  | instruction (.address (.symbol name)) =>
    rw [toList_text_symbol, read_address] at reads
    obtain ⟨operand, -, rfl⟩ := reads
    rfl
  | instruction (.compute dest comp jmp) =>
    have spelled : (instruction (.compute dest comp jmp)).WellSpelled := h
    rw [(spelled.read_text.mp reads).1]
  | label name =>
    rw [toList_text_label, read_label] at reads
    obtain ⟨declared, same, -, rfl⟩ := reads
    rw [List.append_cancel_right_eq, String.toList_inj] at same
    rw [same]

end Line

theorem Lines.declared_of_mapM_read {body lines : List Line} (written : ∀ line ∈ body, line.Written)
    (reads : (body.map fun line => line.text.toList).mapM Line.read = .ok lines) :
    declared lines = declared body := by
  induction body generalizing lines with
  | nil =>
    cases reads
    rfl
  | cons line body ih =>
    obtain ⟨here, later⟩ := List.forall_mem_cons.mp written
    obtain ⟨read, rest, readLine, readRest, rfl⟩ := mapM_cons_eq_ok.mp reads
    have same : rest.filterMap Line.label? = body.filterMap Line.label? := ih later readRest
    rw [declared, declared, List.filterMap_cons, List.filterMap_cons,
      here.label?_of_read readLine, same]

/-! ### Blocks -/

/-- A title of one line, and lines with words for names. -/
structure Block.Written (block : Block) : Prop where
  title : '\n' ∉ block.title.toList
  body : ∀ line ∈ block.body, line.Written

theorem Block.WellSpelled.written {block : Block} (h : block.WellSpelled) : block.Written :=
  ⟨h.title, fun line inside => (h.body line inside).written⟩

theorem Block.Written.cleanLines {block : Block} (h : block.Written) :
    Text.cleanLines block.text.toList = block.body.map fun line => line.text.toList := by
  rw [Block.text, cleanLines_unlines, Block.cleanLines_lines h.title, List.map_eq_flatMap]
  exact List.flatMap_congr fun line inside => (h.body line inside).solid.cleanLines

namespace Command

/-- The command was read from a source, in a file whose name is a symbol. -/
def Parsed (c : Command) : Prop := ∃ source file commands,
  isSymbol file.toList ∧ parse source file = .ok commands ∧ c ∈ commands

variable {c : Command} {number : Nat} {block : Block}

/-- An access that was read is in a file with a symbol for its name. -/
theorem Parsed.isSymbol_file {op : StackOp} {segment : Segment} {index : Int32} {file : String}
    (h : (access op segment index file).Parsed) : isSymbol file.toList := by
  obtain ⟨source, own, commands, isFile, parses, inside⟩ := h
  obtain rfl : file = own := printable_of_parse parses _ inside
  exact isFile

/-- The names of a command that was read are words. -/
theorem Parsed.solid_names (h : c.Parsed) : ∀ name ∈ c.names, Text.Solid name.toList := by
  cases c with
  | operator | ret => nofun
  | access op segment index file =>
    intro name own
    simp only [names] at own
    split at own
    · exact List.mem_singleton.mp own ▸ Text.solid_of_isSymbol h.isSymbol_file
    · cases own
  | label name | goto name | ifGoto name | function name count | call name count =>
    obtain ⟨source, file, commands, -, parses, inside⟩ := h
    exact List.forall_mem_singleton.mpr (printable_of_parse parses _ inside)

theorem Parsed.oneLine (h : c.Parsed) : c.OneLine :=
  fun name own => (h.solid_names name own).feed_not_mem

theorem Parsed.written_fragment {body : Lowering.Fragment} (h : c.Parsed)
    (fragment : c.fragment number = .ok body) : ∀ line ∈ body, line.Written := by
  have known : ∀ {lines : List Line}, (∀ line ∈ lines, line.WellSpelled) →
      ∀ line ∈ lines, line.Written := fun spelled line inside => (spelled line inside).written
  cases c with
  | operator | ret => exact known (wellSpelled_fragment (by simp [Named, names]) fragment)
  | access op segment index file =>
    refine known (wellSpelled_fragment (fun name own => ?_) fragment)
    simp only [names] at own
    split at own
    · exact List.mem_singleton.mp own ▸ h.isSymbol_file
    · cases own
  | label name =>
    have word := h.solid_names name (List.mem_singleton_self _)
    cases fragment
    exact List.forall_mem_singleton.mpr word.upper
  | goto name =>
    have word := h.solid_names name (List.mem_singleton_self _)
    cases fragment
    exact List.forall_mem_cons.mpr ⟨word, known (by decide)⟩
  | ifGoto name =>
    have word := h.solid_names name (List.mem_singleton_self _)
    cases fragment
    exact List.forall_mem_append.mpr ⟨known Lowering.wellSpelled_popData,
      List.forall_mem_cons.mpr ⟨word, known (by decide)⟩⟩
  | function name locals =>
    have word := h.solid_names name (List.mem_singleton_self _)
    cases fragment
    exact List.forall_mem_cons.mpr ⟨word, known (Lowering.wellSpelled_pushZeros locals.toNat)⟩
  | call name args =>
    have word := h.solid_names name (List.mem_singleton_self _)
    have back : Text.Solid (Lowering.returnLabel name number).toList := by
      rw [Lowering.toList_returnLabel]
      exact word.append fun c inside =>
        Line.plain_of_isSymbolChar (Lowering.isSymbolChar_returnMark number c inside)
    have go : (Lowering.jump "0" "JMP").WellSpelled := by decide
    cases fragment
    simp only [Lowering.call_eq, List.forall_mem_append, List.forall_mem_cons]
    exact ⟨⟨back, known (Lowering.wellSpelled_setup args.toNat)⟩, word, go.written, back, by simp⟩

theorem Parsed.written_block (h : c.Parsed) (fragment : c.fragment number = .ok block.body)
    (title : block.title = c.text) : block.Written :=
  ⟨title ▸ feed_not_mem_text h.oneLine, h.written_fragment fragment⟩

end Command

theorem Session.Step.written_make {s : Step} {number : Nat} {block : Block}
    (parsed : ∀ c, s = .command c → c.Parsed) (made : s.make number = .ok block) :
    block.Written := by
  cases s with
  | command c =>
    obtain ⟨fragment, title⟩ := Command.block_eq_ok.mp made
    exact (parsed c rfl).written_block fragment title
  | bootstrap | endProgram =>
    have spelled : block.WellSpelled := wellSpelled_make (fun _ same => by cases same) made
    exact spelled.written

/-! ### Programs -/

namespace Program

variable {commands : List Command} {options : Options} {program : Program} {lines : List Line}
  {n : Nat}

theorem written_blocks (translated : ((Session.program commands options).run.run n).1 = .ok program)
    (parsed : ∀ c ∈ commands, c.Parsed) : ∀ block ∈ program.blocks, block.Written := by
  intro block among
  obtain ⟨s, number, made, own⟩ := Session.exists_make_of_mem_blocks translated among
  exact Session.Step.written_make (fun c same => parsed c (own c same)) made

/-- The lines of blocks are the lines of the text that is made of them. -/
theorem lines_text (written : ∀ block ∈ program.blocks, block.Written) :
    SourceText.lines program.text = program.body.map fun line => line.text.toList := by
  rw [lines_text_eq_flatMap, body, List.map_flatMap]
  refine List.flatMap_congr fun block among => ?_
  rw [← SourceText.cleanLines_eq_lines, (written block among).cleanLines]

/-- What is read from the text declares the labels that the blocks declare. -/
theorem declared_of_readSource (written : ∀ block ∈ program.blocks, block.Written)
    (reads : readSource program.text = .ok lines) :
    Lines.declared lines = Lines.declared program.body := by
  rw [readSource, SourceText.cleanLines_eq_lines, lines_text written] at reads
  refine Lines.declared_of_mapM_read (fun line inside => ?_) reads
  obtain ⟨block, among, own⟩ := List.mem_flatMap.mp inside
  exact (written block among).body line own

/-- A text that assembles declares the labels of its commands and those that lowering makes up. -/
theorem declared_eq_labels (translated : ofCommands commands options = .ok program)
    (parsed : ∀ c ∈ commands, c.Parsed) (reads : readSource program.text = .ok lines) :
    Lines.declared lines = labels commands options := by
  rw [declared_of_readSource (written_blocks translated parsed) reads, declared_body translated]

end Program

end HackToolchain
