import HackToolchain.Proofs.Lowering.Spelling

/-! The text of a translated program read back: the comments around a block hold no line of their
own, and what remains are the lines of the blocks in order. -/

namespace HackToolchain

/-! ### Titles -/

theorem feed_not_mem_of_isSymbol {name : List Char} (h : isSymbol name) : '\n' ∉ name :=
  fun inside => absurd (isSymbol_all h _ inside) (by decide)

theorem feed_not_mem_toString (n : Nat) : '\n' ∉ (toString n).toList :=
  fun inside => absurd (isSymbolChar_toString n _ inside) (by decide)

theorem toList_toString_negSucc (n : Nat) :
    (toString (Int.negSucc n)).toList = '-' :: (toString (n + 1)).toList := by
  show ("-" ++ toString (n + 1)).toList = '-' :: (toString (n + 1)).toList
  rw [String.toList_append]
  rfl

theorem feed_not_mem_toString_int (i : Int) : '\n' ∉ (toString i).toList := by
  cases i with
  | ofNat n => exact feed_not_mem_toString n
  | negSucc n =>
    rw [toList_toString_negSucc, List.mem_cons, not_or]
    exact ⟨by decide, feed_not_mem_toString (n + 1)⟩

theorem feed_not_mem_intercalate {words : List String} (h : ∀ word ∈ words, '\n' ∉ word.toList) :
    '\n' ∉ (" ".intercalate words).toList := by
  induction words with
  | nil => simp
  | cons word rest ih =>
    obtain ⟨here, later⟩ := List.forall_mem_cons.mp h
    by_cases last : rest = []
    · rw [last, String.intercalate_singleton]
      exact here
    · rw [String.intercalate_cons_of_ne_nil last]
      simp only [String.toList_append, List.mem_append, not_or]
      exact ⟨⟨here, by decide⟩, ih later⟩

namespace Command

/-- The names of a command have no line feed. -/
def OneLine (c : Command) : Prop := ∀ name ∈ c.names, '\n' ∉ name.toList

instance : DecidablePred OneLine := fun c =>
  inferInstanceAs (Decidable (∀ name ∈ c.names, '\n' ∉ name.toList))

theorem Named.oneLine {c : Command} (named : c.Named) : c.OneLine :=
  fun name inside => feed_not_mem_of_isSymbol (named name inside)

/-- The text of an access says nothing about its file. -/
theorem feed_not_mem_access (op : StackOp) (segment : Segment) (index : Int32) (file : String) :
    '\n' ∉ (access op segment index file).text.toList := by
  apply feed_not_mem_intercalate
  simp only [words, List.forall_mem_cons]
  refine ⟨by cases op <;> decide, by cases segment <;> decide, feed_not_mem_toString_int _, ?_⟩
  simp

/-- The canonical text of a command is one line if its names are. -/
theorem feed_not_mem_text {c : Command} (plain : c.OneLine) : '\n' ∉ c.text.toList := by
  cases c with
  | access op segment index file => exact feed_not_mem_access op segment index file
  | operator op =>
    apply feed_not_mem_intercalate
    cases op <;> decide
  | label name | goto name | ifGoto name =>
    apply feed_not_mem_intercalate
    simp only [words, List.forall_mem_cons]
    exact ⟨by decide, plain name (by simp [names]), by simp⟩
  | function name count | call name count =>
    apply feed_not_mem_intercalate
    simp only [words, List.forall_mem_cons]
    exact ⟨by decide, plain name (by simp [names]), feed_not_mem_toString _, by simp⟩
  | ret => decide

end Command

/-! ### Blocks -/

/-- A comment line is clean away. -/
theorem cleanLines_comment {line : String} (h : '\n' ∉ line.toList) :
    Text.cleanLines ("// " ++ line).toList = [] := by
  have text : ("// " ++ line).toList = '/' :: '/' :: ' ' :: line.toList := by
    rw [String.toList_append]
    rfl
  rw [text, Text.cleanLines_of_not_mem (by simp [h]), if_pos (Text.clean_comment _)]

namespace Block

/-- A title of one line, and lines in the language of the assembler. -/
structure WellSpelled (block : Block) : Prop where
  title : '\n' ∉ block.title.toList
  body : ∀ line ∈ block.body, line.WellSpelled

/-- The two comments of a block with a title of one line are clean away. -/
theorem cleanLines_lines {block : Block} (title : '\n' ∉ block.title.toList) :
    (block.lines.flatMap fun line => Text.cleanLines line.toList) =
      block.body.flatMap fun line => Text.cleanLines line.text.toList := by
  have comment : ∀ word : String, '\n' ∉ word.toList →
      Text.cleanLines ("// " ++ word ++ block.title).toList = [] := by
    intro word plain
    rw [String.append_assoc]
    apply cleanLines_comment
    rw [String.toList_append, List.mem_append, not_or]
    exact ⟨plain, title⟩
  have first : Text.cleanLines ("// begin " ++ block.title).toList = [] :=
    comment "begin " (by decide)
  have last : Text.cleanLines ("// end " ++ block.title).toList = [] :=
    comment "end " (by decide)
  rw [lines, List.flatMap_append, List.flatMap_cons, first, List.flatMap_singleton, last,
    List.nil_append, List.append_nil, List.flatMap_map]

theorem cleanLines_wellSpelled {lines : List Line} (h : ∀ line ∈ lines, line.WellSpelled) :
    (lines.flatMap fun line => Text.cleanLines line.text.toList) =
      lines.map fun line => line.text.toList := by
  rw [List.map_eq_flatMap]
  exact List.flatMap_congr fun line inside => (h line inside).plain.cleanLines

theorem WellSpelled.cleanLines {block : Block} (h : block.WellSpelled) :
    (block.lines.flatMap fun line => Text.cleanLines line.toList) =
      block.body.map fun line => line.text.toList := by
  rw [cleanLines_lines h.title, cleanLines_wellSpelled h.body]

end Block

theorem Command.wellSpelled_block {c : Command} {number : Nat} {block : Block} (named : c.Named)
    (fragment : c.fragment number = .ok block.body) (title : block.title = c.text) :
    block.WellSpelled :=
  ⟨title ▸ feed_not_mem_text named.oneLine, wellSpelled_fragment named fragment⟩

namespace Program

/-- The lines of all blocks in order. -/
def body (program : Program) : List Line := program.blocks.flatMap Block.body

theorem readSource_text {program : Program} (h : ∀ block ∈ program.blocks, block.WellSpelled)
    {read : List Line} : readSource program.text = .ok read ↔ read = program.body ∧
      ∀ value, .instruction (.address (.literal value)) ∈ program.body → value < 65536 := by
  have clean : Text.cleanLines program.text.toList =
      program.body.map fun line => line.text.toList := by
    rw [text, cleanLines_unlines, lines, List.flatMap_assoc, body, List.map_flatMap]
    exact List.flatMap_congr fun block inside => (h block inside).cleanLines
  have spelled : ∀ line ∈ program.body, line.WellSpelled := by
    intro line inside
    obtain ⟨block, hBlock, inside⟩ := List.mem_flatMap.mp inside
    exact (h block hBlock).body line inside
  rw [readSource, clean, mapM_read_text spelled]

end Program

end HackToolchain
