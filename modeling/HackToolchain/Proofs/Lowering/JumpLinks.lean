import HackToolchain.Proofs.Assembly.NormalForm
import HackToolchain.Proofs.Lowering.ParsedBlocks
import HackToolchain.Proofs.Lowering.SessionLabels
import HackToolchain.Proofs.Lowering.StaticArea

/-! Where the symbols of a program lead. The assembler finds a symbol by its name alone, wherever it
is declared, and makes a variable of one that no line declares. Labels are declared in upper case
and jumps take their names as they are written, so a jump can miss the label of its own name without
a word. -/

namespace HackToolchain

/-! ### Declarations in a source -/

namespace SourceText

variable {source front back : List (List Char)} {lines : List Line} {name : String}

/-- The line is the only one in which a source declares a symbol. -/
def DeclaredIn (source : List (List Char)) (name : String) (line : Nat) : Prop :=
  ∀ k, source[k]? = some (labelLine name) ↔ k = line

/-- In lines that assemble, a symbol is declared once and stands for what follows. -/
theorem declaredIn_of_split (reads : source.mapM Line.read = .ok lines)
    (placeable : Lines.Placeable lines) (split : source = front ++ labelLine name :: back) :
    DeclaredIn source name front.length ∧ labelLine name ∉ front ∧
      address source name = (front.filter isInstruction).length := by
  have declared : name ∈ Lines.declared lines := (labelLine_mem reads).mp (by simp [split])
  subst split
  obtain ⟨first, rest, readFront, readRest, rfl⟩ := mapM_append_eq_ok.mp reads
  obtain ⟨line, last, readLine, readBack, rfl⟩ := mapM_cons_eq_ok.mp readRest
  obtain rfl := (eq_labelLine_iff readLine name).mp rfl
  have once := placeable.nodup
  rw [Lines.declared_append, Lines.declared_label, List.nodup_append, List.nodup_cons] at once
  have before : labelLine name ∉ front := by
    rw [labelLine_mem readFront]
    exact fun inside => once.2.2 name inside name (by simp) rfl
  have after : labelLine name ∉ back := by
    rw [labelLine_mem readBack]
    exact once.2.1.1
  refine ⟨fun k => ⟨fun found => ?_, ?_⟩, before, ?_⟩
  · rcases Nat.lt_trichotomy k front.length with early | same | late
    · rw [List.getElem?_append_left early] at found
      exact absurd (List.mem_of_getElem? found) before
    · exact same
    · rw [List.getElem?_append_right late.le, List.getElem?_cons, if_neg (by omega)] at found
      exact absurd (List.mem_of_getElem? found) after
  · rintro rfl
    simp
  · have start : (front ++ labelLine name :: back).takeWhile (· ≠ labelLine name) = front := by
      rw [List.takeWhile_append_of_pos]
      · simp
      · intro text inside
        simpa using ne_of_mem_of_not_mem inside before
    rw [address, placeable.unfixed name declared]
    simp only [start]
    rw [if_pos (by simp)]

/-- An instruction line that refers to a symbol is read as an instruction that does. -/
theorem code_of_symbolLine (reads : source.mapM Line.read = .ok lines) {k : Nat}
    (isName : isSymbol name.toList)
    (found : (source.filter isInstruction)[k]? = some (symbolLine name)) :
    (Lines.code lines)[k]? = some (.address (.symbol name)) := by
  have pairs := mapM_eq_ok_iff.mp (filter_isInstruction reads)
  obtain ⟨inside, same⟩ := List.getElem?_eq_some_iff.mp found
  have there := pairs.length_eq ▸ inside
  have read := pairs.get inside there
  rw [List.get_eq_getElem, List.get_eq_getElem, same, List.getElem_map, symbolLine,
    Line.read_address] at read
  obtain ⟨operand, readOperand, instruction⟩ := read
  cases readOperand.symm.trans (Operand.read_eq_ok.mpr (.inr ⟨name, rfl, isName, rfl⟩))
  rw [List.length_map] at there
  rw [List.getElem?_eq_getElem there, Line.instruction.inj instruction]

end SourceText

/-- The word of an instruction that refers to a symbol is the address of the symbol. -/
theorem Lines.Assembled.word_symbol {lines : List Line} {rom : Array Word} {k : Nat}
    {name : String} (h : Lines.Assembled lines rom)
    (found : (code lines)[k]? = some (.address (.symbol name))) :
    address lines name ≤ 32767 ∧ rom[k]? = some (BitVec.ofNat 16 (address lines name)) := by
  have pairs := mapM_eq_ok_iff.mp h.words
  obtain ⟨inside, same⟩ := List.getElem?_eq_some_iff.mp found
  have there := pairs.length_eq ▸ inside
  have encoded := pairs.get inside there
  rw [List.get_eq_getElem, List.get_eq_getElem, same] at encoded
  obtain ⟨small, word⟩ := encodeAddress_eq_ok.mp encoded
  refine ⟨small, ?_⟩
  rw [← Array.getElem?_toList, List.getElem?_eq_getElem there, word]

/-! ### References of commands -/

namespace Command

/-- The symbol that a command takes from elsewhere in the program, and the number of instructions
before the one that loads it. -/
def reference? : Command → Option (Nat × String)
  | goto name => some (0, name)
  | ifGoto name => some (4, name)
  | call name _ => some (45, name)
  | access .push .staticVar index file => some (0, Lowering.staticSymbol file index.toInt.toNat)
  | access .pop .staticVar index file => some (4, Lowering.staticSymbol file index.toInt.toNat)
  | _ => none

variable {c : Command} {number place : Nat} {name : String} {body : Lowering.Fragment}

theorem exists_reference (refers : c.reference? = some (place, name))
    (fragment : c.fragment number = .ok body) :
    ∃ front back, body = front ++ Lowering.symbol name :: back ∧ Lines.size front = place := by
  cases c with
  | goto target =>
    cases refers
    cases fragment
    exact ⟨[], _, rfl, rfl⟩
  | ifGoto target =>
    cases refers
    cases fragment
    exact ⟨Lowering.popData, _, rfl, rfl⟩
  | call callee args =>
    cases refers
    cases fragment
    exact ⟨_, _, Lowering.call_eq name args.toNat number, rfl⟩
  | access op segment index file =>
    cases segment with
    | staticVar =>
      have split := (Lowering.staticAccess_eq_ok.mp fragment).2
      cases op with
      | push | pop =>
        cases refers
        exact ⟨_, _, split, rfl⟩
    | argument | localVar | this | that | pointer | temp | constant => cases op <;> cases refers
  | operator | label | function | ret => cases refers

theorem Parsed.named_of_reference (parsed : c.Parsed)
    (refers : c.reference? = some (place, name)) (isName : isSymbol name.toList) : c.Named := by
  cases c with
  | goto target | ifGoto target | call target args =>
    cases refers
    exact List.forall_mem_singleton.mpr isName
  | access op segment index file =>
    intro own among
    simp only [names] at among
    split at among
    · exact List.mem_singleton.mp among ▸ parsed.isSymbol_file
    · cases among
  | operator | label | function | ret => cases refers

end Command

/-! ### Programs -/

namespace Program

variable {commands : List Command} {options : Options} {program : Program} {image : Image}
  {lines : List Line} {i j place : Nat} {c : Command} {name : String}

/-- The labels that lowering makes up for a program. -/
def synthesized (commands : List Command) (options : Options) : List String :=
  (if options.bootstrap then [Lowering.returnLabel Platform.entryFunction 0] else []) ++
    (Command.numberFrom (Session.firstNumber options 0) commands).flatMap
      (fun entry => (Session.Step.command entry.2).labels entry.1) ++
    (if options.terminate then [Lowering.endLabel (lastNumber commands options)] else [])

/-- A label is declared by a command or made up. -/
theorem declares_or_mem_synthesized (inside : name ∈ labels commands options) :
    (∃ c ∈ commands, c.declares name) ∨ name ∈ synthesized commands options := by
  have own : ∀ {number : Nat} {c : Command}, name ∈ c.labels number →
      c.declares name ∨ name ∈ (Session.Step.command c).labels number := by
    intro number c among
    cases c with
    | label declared => exact .inl (decide_eq_true (List.mem_singleton.mp among).symm)
    | function declared locals => exact .inl (decide_eq_true (List.mem_singleton.mp among).symm)
    | operator | access | goto | ifGoto | call | ret => exact .inr among
  simp only [labels, synthesized, List.mem_append] at inside ⊢
  rcases inside with (first | among) | last
  · exact .inr (.inl (.inl first))
  · obtain ⟨⟨number, c⟩, entry, among⟩ := List.mem_flatMap.mp among
    rcases own among with declares | synthesized
    · exact .inl ⟨c, Command.mem_of_mem_numberFrom entry, declares⟩
    · exact .inr (.inl (.inr (List.mem_flatMap.mpr ⟨_, entry, synthesized⟩)))
  · exact .inr (.inr last)

/-- The line of the text in which the block of a command starts. -/
def commandLine (program : Program) (options : Options) (i : Nat) : Nat :=
  (SourceText.lines (text ⟨program.blocks.take (commandBlock options i)⟩)).length

theorem lines_text_append (front back : List Block) : SourceText.lines (text ⟨front ++ back⟩) =
    SourceText.lines (text ⟨front⟩) ++ SourceText.lines (text ⟨back⟩) := by
  simp only [lines_text_eq_flatMap, List.flatMap_append]

theorem lines_text_take (program : Program) (count : Nat) : SourceText.lines program.text =
    SourceText.lines (text ⟨program.blocks.take count⟩) ++
      SourceText.lines (text ⟨program.blocks.drop count⟩) := by
  rw [← lines_text_append, List.take_append_drop]

/-- The block of a command that declares a symbol starts with the declaration. -/
theorem lines_text_declaration (translated : ofCommands commands options = .ok program)
    (parsed : ∀ c ∈ commands, c.Parsed) (found : commands[i]? = some c)
    (declares : c.declares name) : ∃ back,
      SourceText.lines (text ⟨program.blocks.take (commandBlock options i + 1)⟩) =
        SourceText.lines (text ⟨program.blocks.take (commandBlock options i)⟩) ++
          SourceText.labelLine name :: back := by
  have read := parsed c (List.mem_of_getElem? found)
  obtain ⟨number, block, there, fragment, title⟩ := exists_block translated found
  obtain ⟨-, back, body, -, -⟩ := Command.exists_declaration declares fragment read.oneLine
  have own : SourceText.lines (text ⟨[block]⟩) =
      SourceText.labelLine name :: back.map fun line => line.text.toList := by
    rw [← SourceText.cleanLines_eq_lines, cleanLines_text, List.flatMap_singleton,
      (read.written_block fragment title).cleanLines, body, List.nil_append, List.map_cons,
      Line.toList_text_label, SourceText.labelLine]
  rw [List.take_add_one, there, Option.toList_some, lines_text_append, own]
  exact ⟨_, rfl⟩

/-- The declaration of a symbol that is assembled is in the block of one command. -/
theorem declaredIn_of_declares (translated : ofCommands commands options = .ok program)
    (parsed : ∀ c ∈ commands, c.Parsed) (reads : readSource program.text = .ok lines)
    (placeable : Lines.Placeable lines) (found : commands[i]? = some c)
    (declares : c.declares name) :
    SourceText.DeclaredIn (SourceText.lines program.text) name (program.commandLine options i) ∧
      SourceText.labelLine name ∉
        SourceText.lines (text ⟨program.blocks.take (commandBlock options i)⟩) ∧
      SourceText.address (SourceText.lines program.text) name =
        program.commandAddress options i := by
  obtain ⟨back, split⟩ := lines_text_declaration translated parsed found declares
  have whole := lines_text_take program (commandBlock options i + 1)
  rw [split, List.append_assoc, List.cons_append] at whole
  rw [readSource, SourceText.cleanLines_eq_lines] at reads
  exact SourceText.declaredIn_of_split reads placeable whole

theorem declares_unique (translated : ofCommands commands options = .ok program)
    (parsed : ∀ c ∈ commands, c.Parsed) (reads : readSource program.text = .ok lines)
    (placeable : Lines.Placeable lines) {d : Command} (found : commands[i]? = some c)
    (found' : commands[j]? = some d) (declares : c.declares name) (declares' : d.declares name) :
    i = j := by
  -- The text before the later of two declarations would hold the earlier one.
  have ordered : ∀ {i j : Nat} {c d : Command}, commands[i]? = some c → commands[j]? = some d →
      c.declares name → d.declares name → ¬ i < j := by
    intro i j c d found found' declares declares' before
    obtain ⟨back, split⟩ := lines_text_declaration translated parsed found declares
    have earlier := lines_text_take ⟨program.blocks.take (commandBlock options j)⟩
      (commandBlock options i + 1)
    have shorter : commandBlock options i + 1 ≤ commandBlock options j := by
      rw [commandBlock, commandBlock]
      omega
    rw [List.take_take, Nat.min_eq_left shorter, split] at earlier
    refine (declaredIn_of_declares translated parsed reads placeable found' declares').2.1 ?_
    rw [earlier]
    simp
  exact Nat.le_antisymm (Nat.le_of_not_lt (ordered found' found declares' declares))
    (Nat.le_of_not_lt (ordered found found' declares declares'))

theorem code_reference (translated : ofCommands commands options = .ok program)
    (parsed : c.Parsed) (reads : readSource program.text = .ok lines)
    (found : commands[i]? = some c) (refers : c.reference? = some (place, name))
    (isName : isSymbol name.toList) :
    (Lines.code lines)[program.commandAddress options i + place]? =
      some (.address (.symbol name)) := by
  obtain ⟨number, front, body, back, fragment, split, start, -⟩ :=
    split_command translated reads found (parsed.named_of_reference refers isName)
  obtain ⟨before, after, rfl, rfl⟩ := Command.exists_reference refers fragment
  have parts : Lines.code lines = Lines.code front ++ (Lines.code before ++
      .address (.symbol name) :: (Lines.code after ++ Lines.code back)) := by
    rw [split]
    simp [Lowering.symbol]
  rw [parts, ← start, Lines.size, Lines.size, List.getElem?_append_right (Nat.le_add_right _ _),
    Nat.add_sub_cancel_left, List.getElem?_append_right (Nat.le_refl _), Nat.sub_self]
  rfl

theorem address_of_mem_variableNames (reads : readSource program.text = .ok lines)
    (placed : Lines.Assembled lines image.words) (inside : name ∈ Lines.variableNames lines) :
    SourceText.address (SourceText.lines program.text) name = Lines.address lines name := by
  obtain ⟨referred, -⟩ := Lines.mem_variableNames.mp inside
  have legible := (SourceText.texts_of_mapM_read reads (placed.encodes (List.Subset.refl _))).1
  exact address_of_readSource reads referred (legible _ (Lines.mem_references.mp referred))

/-- The symbol is a variable of the program. -/
structure VariableIn (commands : List Command) (options : Options) (program : Program)
    (image : Image) (name : String) (cell : Nat) : Prop where
  above : 16 ≤ cell
  among : name ∈ program.variableNames
  /-- Every line that refers to the symbol loads the cell. -/
  lines : ∀ k : Nat, ((SourceText.lines program.text).filter SourceText.isInstruction)[k]? =
    some (SourceText.symbolLine name) → image.words[k]? = some (BitVec.ofNat 16 cell)
  /-- Every command that refers to the symbol loads the cell. -/
  commands : ∀ (k place : Nat) (c : Command), commands[k]? = some c →
    c.reference? = some (place, name) →
    image.words[program.commandAddress options k + place]? = some (BitVec.ofNat 16 cell)
  apart : ∀ other ∈ program.variableNames, other ≠ name →
    SourceText.address (SourceText.lines program.text) other ≠ cell

theorem variableIn_of_undeclared (translated : ofCommands commands options = .ok program)
    (parsed : ∀ c ∈ commands, c.Parsed) (reads : readSource program.text = .ok lines)
    (placed : Lines.Assembled lines image.words) (isName : isSymbol name.toList)
    (referred : name ∈ Lines.references lines) (undeclared : ∀ c ∈ commands, ¬ c.declares name)
    (own : name ∉ synthesized commands options)
    (unfixed : predefinedSymbols.lookup name = none) :
    VariableIn commands options program image name (Lines.address lines name) := by
  have free : name ∈ Lines.variableNames lines := by
    refine Lines.mem_variableNames.mpr ⟨referred, Lines.fixed?_eq_none.mpr ⟨unfixed, ?_⟩⟩
    rw [declared_eq_labels translated parsed reads]
    intro inside
    rcases declares_or_mem_synthesized inside with ⟨c, among, declares⟩ | synthesized
    · exact undeclared c among declares
    · exact own synthesized
  constructor
  case above =>
    rw [Lines.address_variableNames free]
    exact Nat.le_add_right _ _
  case among => exact variableNames_eq reads ▸ free
  case lines =>
    intro k line
    rw [readSource, SourceText.cleanLines_eq_lines] at reads
    exact (placed.word_symbol (SourceText.code_of_symbolLine reads isName line)).2
  case commands =>
    intro k place c found refers
    have read := parsed c (List.mem_of_getElem? found)
    exact (placed.word_symbol (code_reference translated read reads found refers isName)).2
  case apart =>
    intro other among differs
    rw [variableNames_eq reads] at among
    rw [address_of_mem_variableNames reads placed among, Ne,
      Lines.address_variableNames_inj among free]
    exact differs

/-- What refers to a symbol loads the address of the symbol. If a command declares it, that is the
address behind the declaration, wherever this stands, and no other command declares it. If nothing
declares it, it is the cell of a variable, which every reference to the symbol shares and no other
variable has. A label is declared under its own name only if that is in upper case. -/
theorem reference_linked (translated : ofCommands commands options = .ok program)
    (parsed : ∀ c ∈ commands, c.Parsed) (assembled : assemble program.text = .ok image)
    (found : commands[i]? = some c) (refers : c.reference? = some (place, name))
    (isName : isSymbol name.toList) {source : List (List Char)} {target : Nat}
    (hSource : SourceText.lines program.text = source)
    (hTarget : SourceText.address source name = target) :
    target ≤ 32767 ∧
    image.words[program.commandAddress options i + place]? = some (BitVec.ofNat 16 target) ∧
    (∀ (j k : Nat) (d e : Command), commands[j]? = some d → commands[k]? = some e →
      d.declares name → e.declares name → j = k) ∧
    (∀ (j : Nat) (d : Command), commands[j]? = some d → d.declares name →
      SourceText.DeclaredIn source name (program.commandLine options j) ∧
        target = program.commandAddress options j) ∧
    ((∀ d ∈ commands, ¬ d.declares name) → name ∉ synthesized commands options →
      predefinedSymbols.lookup name = none →
        VariableIn commands options program image name target) ∧
    ∀ j : Nat, commands[j]? = some (.label name) →
      (SourceText.DeclaredIn source name (program.commandLine options j) ↔
        Text.upper name = name) := by
  subst hSource
  obtain ⟨lines, reads, placed⟩ := exists_assembled assembled
  have code := code_reference translated (parsed c (List.mem_of_getElem? found)) reads found
    refers isName
  have referred : name ∈ Lines.references lines :=
    List.mem_filterMap.mpr ⟨_, List.mem_of_getElem? code, rfl⟩
  obtain rfl : target = Lines.address lines name :=
    hTarget.symm.trans (address_of_readSource reads referred isName)
  obtain ⟨small, loads⟩ := placed.word_symbol code
  have declaredIn : ∀ {own : String} (j : Nat) (d : Command), commands[j]? = some d →
      d.declares own →
      SourceText.DeclaredIn (SourceText.lines program.text) own (program.commandLine options j) ∧
        SourceText.address (SourceText.lines program.text) own =
          program.commandAddress options j := by
    intro own j d there declares
    obtain ⟨only, -, address⟩ :=
      declaredIn_of_declares translated parsed reads placed.placeable there declares
    exact ⟨only, address⟩
  refine ⟨small, loads, fun j k d e there there' => ?_, fun j d there declares => ?_,
    variableIn_of_undeclared translated parsed reads placed isName referred,
    fun j there => ⟨fun only => ?_, fun upper => ?_⟩⟩
  · exact declares_unique translated parsed reads placed.placeable there there'
  · obtain ⟨only, address⟩ := declaredIn j d there declares
    exact ⟨only, hTarget.symm.trans address⟩
  · obtain ⟨declared, -⟩ := declaredIn j _ there (decide_eq_true rfl)
    have line := ((declared _).mpr rfl).symm.trans ((only _).mpr rfl)
    simpa [SourceText.labelLine, String.toList_inj] using line
  · exact (declaredIn j _ there (decide_eq_true upper)).1

/-- A jump that misses the label of its own name, and one that finds it. -/
def missedSource : String := "label Main.3\ngoto Main.3\nif-goto MAIN.3\npush static 3\n"

def missedLabel : List Command :=
  [.label "Main.3", .goto "Main.3", .ifGoto "MAIN.3", .access .push .staticVar 3 "Main"]

/-- The first jump loads the cell of a static variable. -/
theorem reference_linked_missedLabel : ∃ program image cell,
    Command.parse missedSource "Main" = .ok missedLabel ∧
    ofCommands missedLabel ⟨false, false⟩ = .ok program ∧ assemble program.text = .ok image ∧
    16 ≤ cell ∧
    image.words[program.commandAddress ⟨false, false⟩ 1]? = some (BitVec.ofNat 16 cell) ∧
    image.words[program.commandAddress ⟨false, false⟩ 3]? = some (BitVec.ofNat 16 cell) ∧
    ¬ SourceText.DeclaredIn (SourceText.lines program.text) "Main.3"
      (program.commandLine ⟨false, false⟩ 0) ∧
    image.words[program.commandAddress ⟨false, false⟩ 2 + 4]? =
      some (BitVec.ofNat 16 (program.commandAddress ⟨false, false⟩ 0)) := by
  have parses : Command.parse missedSource "Main" = .ok missedLabel := by
    rfl
  have parsed : ∀ c ∈ missedLabel, c.Parsed := fun c inside =>
    ⟨_, _, _, by decide, parses, inside⟩
  obtain ⟨program, translated⟩ :
      ∃ program, ofCommands missedLabel ⟨false, false⟩ = .ok program := ⟨_, rfl⟩
  obtain ⟨image, assembled⟩ : ∃ image, assemble program.text = .ok image := by
    refine exists_assemble_of_few translated (by decide) (by decide) (by decide) (by decide) ?_ ?_
    all_goals
      cases translated
      decide
  obtain ⟨-, missed, -, -, free, only⟩ := reference_linked translated parsed assembled
    (i := 1) rfl rfl (by decide) rfl rfl
  obtain ⟨-, hit, -, declared, -⟩ := reference_linked translated parsed assembled
    (i := 2) rfl rfl (by decide) rfl rfl
  have cell := free (by decide) (by decide) (by decide)
  have static := cell.commands 3 0 _ rfl rfl
  rw [Nat.add_zero] at missed static
  rw [(declared 0 _ rfl (by decide)).2] at hit
  exact ⟨program, image, _, parses, translated, assembled, cell.above, missed, static,
    fun found => absurd ((only 0 rfl).mp found) (by decide), hit⟩

end Program

end HackToolchain
