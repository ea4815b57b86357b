import HackToolchain.Proofs.Lowering.References
import HackToolchain.Proofs.Lowering.StaticCells
import HackToolchain.Proofs.StackMachine.Machine
import HackToolchain.Proofs.StackMachine.Separate

/-! The symbols of a program that are left to the assembler. Registers are predefined and the
targets of jumps declared, so what is left are the static variables, as the names of their files are
read. -/

namespace HackToolchain

open Lowering

/-! ### Lines of one name -/

/-- The declaration of a label is read as a declaration, whatever its name. -/
theorem read_labelLine {name : String} {lines : List Line} (single : '\n' ∉ name.toList)
    (reads : (Text.cleanLines (Line.label name).text.toList).mapM Line.read = .ok lines) :
    ∃ declared, lines = [.label declared] ∧
      (Text.code name.toList = name.toList → declared = spelled name) := by
  rw [Line.toList_text_label, Text.cleanLines_cons (by decide) (by simp [single])] at reads
  obtain ⟨line, _, read, rest, rfl⟩ := mapM_cons_eq_ok.mp reads
  cases rest
  obtain ⟨declared, same, -, rfl⟩ := Line.read_label.mp read
  refine ⟨declared, rfl, fun plain => ?_⟩
  have closing : Text.unspaced [')'] = [')'] := rfl
  rw [Text.clean_append plain (by decide), closing, List.append_cancel_right_eq] at same
  rw [spelled, same, String.ofList_toList]

/-- A line that refers to a name is read as an address. -/
theorem read_symbolLine {name : String} {lines : List Line} (single : '\n' ∉ name.toList)
    (reads : (Text.cleanLines (symbol name).text.toList).mapM Line.read = .ok lines) :
    ∃ operand, lines = [.instruction (.address operand)] ∧
      (Text.code name.toList = name.toList →
        ∀ other, operand = .symbol other → other = spelled name) := by
  rw [symbol, Line.toList_text_symbol, Text.cleanLines_cons (by decide) single] at reads
  obtain ⟨line, _, read, rest, rfl⟩ := mapM_cons_eq_ok.mp reads
  cases rest
  obtain ⟨operand, readOperand, rfl⟩ := Line.read_address.mp read
  refine ⟨operand, rfl, ?_⟩
  rintro plain other rfl
  rcases Operand.read_eq_ok.mp readOperand with ⟨_, different, -⟩ | ⟨_, same, -, written⟩
  · cases different
  · cases same
    rw [Text.clean, plain] at written
    rw [spelled, written, String.ofList_toList]

/-! ### Symbols without a fixed address -/

namespace Lines

/-- The symbols that a part of some lines refers to and that have no fixed address in them. -/
def free (lines part : List Line) : List String :=
  (references part).filter fun name => (fixed? lines name).isNone

variable {lines front back part : List Line} {name : String}

theorem variableNames_eq (lines : List Line) : variableNames lines = (free lines lines).eraseDups :=
  rfl

theorem free_append : free lines (front ++ back) = free lines front ++ free lines back := by
  rw [free, references_append, List.filter_append, free, free]

theorem free_eq_nil (all : ∀ name ∈ references part, fixed? lines name ≠ none) :
    free lines part = [] :=
  List.filter_eq_nil_iff.mpr fun name inside => by simpa using all name inside

theorem fixed_register (register : name ∈ registers) : fixed? lines name ≠ none :=
  fun unfixed => registers_predefined name register (fixed?_eq_none.mp unfixed).1

theorem fixed_declared (inside : name ∈ declared lines) : fixed? lines name ≠ none :=
  fun unfixed => (fixed?_eq_none.mp unfixed).2 inside

theorem free_registers (all : ∀ name ∈ references part, name ∈ registers) :
    free lines part = [] :=
  free_eq_nil fun name inside => fixed_register (all name inside)

theorem declared_subset (inside : part ⊆ lines) : declared part ⊆ declared lines := by
  intro name label
  obtain ⟨line, among, same⟩ := List.mem_filterMap.mp label
  exact List.mem_filterMap.mpr ⟨line, inside among, same⟩

end Lines

/-! ### Blocks -/

/-- A name is declared by some lines, in a line that can be read. -/
structure Declared (lines : List Line) (name : String) : Prop where
  readable : Readable (Line.label name).text.toList
  spelled : Text.code name.toList = name.toList → spelled name ∈ Lines.declared lines

section

variable {lines part : List Line} {block : Block} {name : String}

/-- A declared name that a block refers to has no comment in it. -/
theorem Declared.plain (h : Declared lines name) (reads : readSource block.text = .ok part)
    (refers : symbol name ∈ block.body) : Text.code name.toList = name.toList := by
  have address : Readable (symbol name).text.toList := by
    apply readable_of_readSource reads
    simp only [Block.lines, List.mem_append, List.mem_cons, List.mem_map]
    exact .inl (.inr ⟨symbol name, refers, rfl⟩)
  have label := h.readable
  rw [symbol, Line.toList_text_symbol] at address
  rw [Line.toList_text_label] at label
  exact (plain_of_readable address label (by decide) (by decide)).2

/-- A jump to a declared name leaves nothing to the assembler. -/
theorem free_jump {front back : List Line} (declared : Declared lines name)
    (single : '\n' ∉ name.toList) (title : '\n' ∉ block.title.toList)
    (body : block.body = front ++ symbol name :: back)
    (spelled : ∀ line ∈ front ++ back, line.WellSpelled)
    (referred : ∀ name ∈ Lines.references (front ++ back), name ∈ registers)
    (reads : readSource block.text = .ok part) : Lines.free lines part = [] := by
  have plain := declared.plain reads (by simp [body])
  rw [List.forall_mem_append] at spelled
  obtain ⟨middle, read, rfl⟩ := read_around title body spelled.1 spelled.2 reads
  obtain ⟨operand, rfl, same⟩ := read_symbolLine single read
  rw [Lines.references_append, List.forall_mem_append] at referred
  refine Lines.free_eq_nil fun other inside => ?_
  rw [Lines.references_append, Lines.references_append, List.mem_append, List.mem_append] at inside
  rcases inside with first | target | last
  · exact Lines.fixed_register (referred.1 other first)
  · have operand_eq := Lines.mem_references.mp target
    simp only [List.mem_singleton, Line.instruction.injEq, Instruction.address.injEq] at operand_eq
    rw [same plain other operand_eq.symm]
    exact Lines.fixed_declared (declared.spelled plain)
  · exact Lines.fixed_register (referred.2 other last)

end

namespace Command

/-- The symbol of the static variable of a command, as it is read. -/
def written (c : Command) : List String :=
  c.statics.map fun v => staticSymbol (writtenFile v.1) v.2

/-- The file of a static variable has a name without a directory. -/
def Stem (c : Command) : Prop := ∀ v ∈ c.statics, '/' ∉ v.1.toList

instance : DecidablePred Stem := fun c =>
  inferInstanceAs (Decidable (∀ v ∈ c.statics, '/' ∉ v.1.toList))

variable {c : Command} {number : Nat} {block : Block} {lines part : List Line}

/-- A command that brings no names. -/
theorem free_nameless (fragment : c.fragment number = .ok block.body)
    (title : block.title = c.text) (nameless : c.names = []) (none : c.symbols = [])
    (reads : readSource block.text = .ok part) (inside : part ⊆ lines) :
    Lines.free lines part = [] := by
  have named : c.Named := by simp [Named, nameless]
  obtain rfl := read_wellSpelled (wellSpelled_block named fragment title) reads
  refine Lines.free_eq_nil fun name referred => ?_
  rcases references_fragment fragment referred with register | label | symbol
  · exact Lines.fixed_register register
  · rw [← declared_fragment fragment] at label
    exact Lines.fixed_declared (Lines.declared_subset inside label)
  · rw [none] at symbol
    cases symbol

/-- An access to a static variable that is in one line leaves its symbol, as it is read. -/
theorem free_static {rom : Array Word} {op : StackOp} {index : Int32} {file : String}
    (fragment : Lowering.access op .staticVar index file = .ok block.body)
    (title : block.title = (access op .staticVar index file).text)
    (single : '\n' ∉ file.toList) (stem : '/' ∉ file.toList)
    (reads : readSource block.text = .ok part) (inside : part ⊆ lines)
    (placed : Lines.Assembled lines rom)
    (unfixed : Lines.fixed? lines (writtenStatic file index) = none) :
    Lines.free lines part = [writtenStatic file index] := by
  obtain ⟨-, first, rfl, none⟩ :=
    read_staticAccess stem fragment title reads (placed.encodes inside)
  have before : ∀ name ∈ Lines.references (fetch op), name ∈ registers := by cases op <;> decide
  have after : ∀ name ∈ Lines.references (move op), name ∈ registers := by cases op <;> decide
  rw [none single, List.append_nil, List.append_cons, Lines.free_append, Lines.free_append,
    Lines.free_registers before, Lines.free_registers after, List.nil_append, List.append_nil]
  exact List.filter_cons_of_pos (by simpa using unfixed)

/-- The block of a command that declares a name starts with the declaration. -/
theorem exists_declaration {name : String} {body : Fragment} (declares : c.declares name)
    (fragment : c.fragment number = .ok body) (plain : c.OneLine) :
    '\n' ∉ name.toList ∧ ∃ back, body = [] ++ .label name :: back ∧
      (∀ line ∈ back, line.WellSpelled) ∧
      ∀ other ∈ Lines.references back, other ∈ registers := by
  cases c with
  | label declared =>
    obtain rfl : Text.upper declared = name := of_decide_eq_true declares
    exact ⟨feed_not_mem_upper (plain declared (by simp [names])), [],
      (Except.ok.inj fragment).symm, by simp, by simp [Lines.references]⟩
  | function declared locals =>
    obtain rfl : declared = name := of_decide_eq_true declares
    exact ⟨plain declared (by simp [names]), _, (Except.ok.inj fragment).symm,
      wellSpelled_pushZeros locals.toNat, references_function declared locals.toNat⟩
  | operator | access | goto | ifGoto | call | ret => cases declares

/-- That block reads as a declaration, of the name as it is read if it has no comment. -/
theorem read_declaration {name : String} (declares : c.declares name)
    (fragment : c.fragment number = .ok block.body) (title : block.title = c.text)
    (plain : c.OneLine) (reads : readSource block.text = .ok part) :
    ∃ declared back, part = .label declared :: back ∧
      (∀ other ∈ Lines.references back, other ∈ registers) ∧
      (Text.code name.toList = name.toList → declared = spelled name) := by
  obtain ⟨single, back, body, spelled, referred⟩ := exists_declaration declares fragment plain
  obtain ⟨middle, read, rfl⟩ :=
    read_around (title ▸ feed_not_mem_text plain) body (by simp) spelled reads
  obtain ⟨declared, rfl, same⟩ := read_labelLine single read
  exact ⟨declared, back, rfl, referred, same⟩

theorem free_declaration {name : String} (declares : c.declares name)
    (fragment : c.fragment number = .ok block.body) (title : block.title = c.text)
    (plain : c.OneLine) (reads : readSource block.text = .ok part) :
    Lines.free lines part = [] := by
  obtain ⟨declared, back, rfl, referred, -⟩ := read_declaration declares fragment title plain reads
  exact Lines.free_registers referred

/-- The block of a command leaves its static variable to the assembler, and nothing else. -/
theorem free_block {rom : Array Word} (fragment : c.fragment number = .ok block.body)
    (title : block.title = c.text) (plain : c.OneLine) (stem : c.Stem)
    (targets : ∀ name ∈ c.jumpsTo, Declared lines name)
    (unfixed : ∀ name ∈ c.written, Lines.fixed? lines name = none)
    (reads : readSource block.text = .ok part) (inside : part ⊆ lines)
    (placed : Lines.Assembled lines rom) :
    Lines.free lines part = c.written := by
  have single : '\n' ∉ block.title.toList := title ▸ feed_not_mem_text plain
  cases c with
  | operator op => exact free_nameless fragment title rfl rfl reads inside
  | ret => exact free_nameless fragment title rfl rfl reads inside
  | access op segment index file =>
    cases segment with
    | staticVar =>
      exact free_static fragment title (plain file (by simp [names]))
        (stem (file, index.toInt.toNat) (List.mem_singleton_self _)) reads inside placed
        (unfixed _ (List.mem_singleton_self _))
    | argument | localVar | this | that | pointer | temp | constant =>
      exact free_nameless fragment title rfl rfl reads inside
  | label name =>
    have declares : (label name).declares (Text.upper name) := decide_eq_true rfl
    exact free_declaration declares fragment title plain reads
  | function name locals =>
    have declares : (function name locals).declares name := decide_eq_true rfl
    exact free_declaration declares fragment title plain reads
  | goto name =>
    have body : block.body = [] ++ symbol name :: [jump "0" "JMP"] :=
      (Except.ok.inj fragment).symm
    exact free_jump (targets name rfl) (plain name (by simp [names])) single body (by decide)
      (by decide) reads
  | ifGoto name =>
    have body : block.body = popData ++ symbol name :: [jump "D" "JNE"] :=
      (Except.ok.inj fragment).symm
    exact free_jump (targets name rfl) (plain name (by simp [names])) single body (by decide)
      (by decide) reads
  | call name args =>
    have body : block.body = Lowering.call name args.toNat number := (Except.ok.inj fragment).symm
    have declared := targets name rfl
    have noComment := declared.plain reads (by simp [body, Lowering.call])
    obtain ⟨-, rfl⟩ := read_call body (fun _ => single) reads
    refine Lines.free_eq_nil fun other referred => ?_
    rcases references_call referred with register | rfl | rfl
    · exact Lines.fixed_register register
    · refine Lines.fixed_declared (Lines.declared_subset inside ?_)
      exact List.mem_singleton_self _
    · exact Lines.fixed_declared (declared.spelled noComment)

theorem free_blocks {entries : List (Nat × Command)} {blocks : List Block}
    (h : List.Forall₂ (fun entry block => numberedBlock entry = .ok block) entries blocks)
    (each : ∀ entry ∈ entries, ∀ block part, numberedBlock entry = .ok block →
      readSource block.text = .ok part → part ⊆ lines → Lines.free lines part = entry.2.written)
    (reads : readSource (Program.text ⟨blocks⟩) = .ok part) (inside : part ⊆ lines) :
    Lines.free lines part = (entries.map (·.2)).flatMap written := by
  induction h generalizing part with
  | nil =>
    cases reads
    rfl
  | @cons entry block entries blocks here _ ih =>
    obtain ⟨hereEach, laterEach⟩ := List.forall_mem_cons.mp each
    rw [← List.singleton_append] at reads
    obtain ⟨first, last, readFirst, readLast, rfl⟩ := Program.readSource_append.mp reads
    rw [Program.readSource_singleton] at readFirst
    rw [List.append_subset] at inside
    rw [Lines.free_append, hereEach block first here readFirst inside.1,
      ih laterEach readLast inside.2, List.map_cons, List.flatMap_cons]

end Command

/-! ### Programs -/

namespace Program

/-- The names of a program are in one line, and it declares the targets of its jumps and calls. -/
structure Closed (commands : List Command) (options : Options) : Prop where
  oneLine : ∀ c ∈ commands, c.OneLine
  targets : ∀ c ∈ commands, ∀ name ∈ c.jumpsTo, ∃ d ∈ commands, d.declares name
  entry : options.bootstrap → ∃ d ∈ commands, d.declares Platform.entryFunction

variable {commands : List Command} {options : Options} {program : Program} {lines part : List Line}
  {name : String}

theorem declared_of_declares (translated : ofCommands commands options = .ok program)
    (reads : readSource program.text = .ok lines) (plain : ∀ c ∈ commands, c.OneLine)
    (declares : ∃ c ∈ commands, c.declares name) : Declared lines name := by
  obtain ⟨c, among, declares⟩ := declares
  obtain ⟨i, found⟩ := List.getElem?_of_mem among
  obtain ⟨number, block, front, part, back, fragment, title, readPart, rfl, -, -⟩ :=
    split_block translated reads found
  obtain ⟨-, after, body, -, -⟩ := Command.exists_declaration declares fragment (plain c among)
  obtain ⟨declared, rest, rfl, -, same⟩ :=
    Command.read_declaration declares fragment title (plain c among) readPart
  constructor
  · apply readable_of_readSource readPart
    simp [Block.lines, body]
  · intro noComment
    rw [← same noComment]
    simp

theorem free_firstBlocks (entry : options.bootstrap → Declared lines Platform.entryFunction)
    (reads : readSource (text ⟨Session.firstBlocks options 0⟩) = .ok part) (inside : part ⊆ lines) :
    Lines.free lines part = [] := by
  unfold Session.firstBlocks at reads
  split at reads
  · next boots =>
    have title : '\n' ∉ "bootstrap".toList := by decide
    rw [readSource_singleton] at reads
    obtain rfl := read_wellSpelled ⟨title, wellSpelled_bootstrap 0⟩ reads
    refine Lines.free_eq_nil fun name referred => ?_
    rcases references_bootstrap referred with register | rfl | rfl
    · exact Lines.fixed_register register
    · refine Lines.fixed_declared (Lines.declared_subset inside ?_)
      exact List.mem_singleton_self _
    · have noWhite : spelled Platform.entryFunction = Platform.entryFunction := by decide
      exact Lines.fixed_declared (noWhite ▸ (entry boots).spelled (by decide))
  · cases reads
    rfl

theorem free_lastBlocks {number : Nat}
    (reads : readSource (text ⟨Session.lastBlocks options number⟩) = .ok part)
    (inside : part ⊆ lines) : Lines.free lines part = [] := by
  unfold Session.lastBlocks at reads
  split at reads
  · have title : '\n' ∉ "end program".toList := by decide
    rw [readSource_singleton] at reads
    obtain rfl := read_wellSpelled ⟨title, wellSpelled_endLoop number⟩ reads
    refine Lines.free_eq_nil fun name referred => ?_
    exact Lines.fixed_declared (Lines.declared_subset inside referred)
  · cases reads
    rfl

/-- The symbols that a program leaves to the assembler are its static variables, in order. -/
theorem free_lines {rom : Array Word} (translated : ofCommands commands options = .ok program)
    (reads : readSource program.text = .ok lines)
    (placed : Lines.Assembled lines rom)
    (closed : Closed commands options) (stems : ∀ c ∈ commands, c.Stem)
    (unfixed : ∀ name ∈ commands.flatMap Command.written, Lines.fixed? lines name = none) :
    Lines.free lines lines = commands.flatMap Command.written := by
  have declared : ∀ name, (∃ c ∈ commands, c.declares name) → Declared lines name :=
    fun name => declared_of_declares translated reads closed.oneLine
  obtain ⟨blocks, made, split⟩ := blocks_of_session translated
  obtain ⟨all⟩ := program
  subst split
  obtain ⟨front, last, readFront, readLast, split⟩ := readSource_append.mp reads
  obtain ⟨first, middle, readFirst, readMiddle, rfl⟩ := readSource_append.mp readFront
  have inside : first ++ middle ++ last ⊆ lines := split ▸ List.Subset.refl _
  rw [List.append_subset, List.append_subset] at inside
  have commandsFree : Lines.free lines middle = commands.flatMap Command.written := by
    rw [← Command.map_snd_numberFrom (Session.firstNumber options 0) commands]
    refine Command.free_blocks (mapM_eq_ok_iff.mp made) ?_ readMiddle inside.1.2
    rintro ⟨number, c⟩ entry block part make readPart among
    obtain ⟨fragment, title⟩ := Command.numberedBlock_eq_ok make
    have own : c ∈ commands := Command.mem_of_mem_numberFrom entry
    exact Command.free_block fragment title (closed.oneLine c own) (stems c own)
      (fun name jumps => declared name (closed.targets c own name jumps))
      (fun name written => unfixed name (List.mem_flatMap.mpr ⟨c, own, written⟩)) readPart among
      placed
  calc Lines.free lines lines
    _ = Lines.free lines first ++ Lines.free lines middle ++ Lines.free lines last := by
      rw [← Lines.free_append, ← Lines.free_append, ← split]
    _ = commands.flatMap Command.written := by
      rw [free_firstBlocks (fun boots => declared _ (closed.entry boots)) readFirst inside.1.1,
        commandsFree, free_lastBlocks readLast inside.2, List.nil_append, List.append_nil]

end Program

end HackToolchain
