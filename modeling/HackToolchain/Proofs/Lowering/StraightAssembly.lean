import HackToolchain.Proofs.Lowering.Linking
import HackToolchain.Proofs.Lowering.References
import HackToolchain.Proofs.Lowering.SessionLabels
import HackToolchain.Proofs.StackMachine.Separation
import Mathlib.Data.Finset.Card
import Mathlib.Data.Finset.Image

/-! Programs without labels, jumps and functions assemble. All labels are made up, and the symbols
that are left to the assembler are those of the static variables, which get cells of their own. -/

namespace HackToolchain

open StackMachine

/-! ### Names that cannot be confused -/

namespace Lowering

theorem dot_not_mem_numbered {stem : String} (n : Nat) (h : '.' ∉ stem.toList) :
    '.' ∉ (numbered stem n).toList := by
  have digits : '.' ∉ Nat.toDigits 10 n := by
    intro inside
    exact absurd (Nat.isDigit_of_mem_toDigits (by decide) (by decide) inside) (by decide)
  simp [numbered, h, digits]

theorem numbered_ne_staticSymbol {stem : String} (n : Nat) (h : '.' ∉ stem.toList) (file : String)
    (index : Nat) : numbered stem n ≠ staticSymbol file index := by
  intro same
  apply dot_not_mem_numbered n h
  rw [same]
  simp [staticSymbol]

end Lowering

/-! ### Commands -/

namespace Command

variable {c : Command} {number : Nat} {name : String} {body : Lowering.Fragment}

theorem StraightLine.named (h : c.StraightLine) : c.Named := by
  cases c with
  | operator op => simp [Named, names]
  | access op segment index file =>
    obtain ⟨-, range⟩ := h
    cases segment with
    | staticVar =>
      have isName : isSymbol file.toList := range
      simpa [Named, names] using isName
    | argument | localVar | this | that | pointer | temp | constant => simp [Named, names]
  | label | goto | ifGoto | function | call | ret => cases h

theorem StraightLine.operandFits (h : c.StraightLine) : c.OperandFits := by
  cases c with
  | operator op => trivial
  | access op segment index file =>
    obtain ⟨-, range⟩ := h
    cases segment with
    | constant => exact fun _ => range.2
    | argument | localVar | this | that => cases range
    | pointer | temp | staticVar => simp [OperandFits]
  | label | goto | ifGoto | function | call | ret => cases h

/-- Where the operand of a command lies. -/
inductive StraightPlace (op : StackOp) (file : String) (index : Nat) :
    Segment → Lowering.Location → Prop
  | constant (pushes : op = .push) : StraightPlace op file index .constant (.constant index)
  | temp : StraightPlace op file index .temp (.temp index)
  | this : StraightPlace op file index .pointer (.named "THIS")
  | that : StraightPlace op file index .pointer (.named "THAT")
  | staticVar :
    StraightPlace op file index .staticVar (.named (Lowering.staticSymbol file index))

theorem StraightLine.find {op : StackOp} {segment : Segment} {index : Int32} {file : String}
    (h : (access op segment index file).StraightLine) :
    ∃ location, Lowering.Location.find segment index file = .ok location ∧
      StraightPlace op file index.toInt.toNat segment location := by
  obtain ⟨positive, range⟩ := h
  cases segment with
  | constant =>
    exact ⟨_, Lowering.Location.find_eq_ok.mpr ⟨positive, rfl⟩, .constant range.1⟩
  | temp =>
    have small : index.toInt.toNat < Platform.tempSize := by
      have range : index.toInt ≤ 7 := range
      rw [Platform.tempSize]
      omega
    exact ⟨_, Lowering.Location.find_eq_ok.mpr ⟨positive, if_pos small⟩, .temp⟩
  | pointer =>
    have range : index.toInt ≤ 1 := range
    rcases Nat.le_one_iff_eq_zero_or_eq_one.mp (show index.toInt.toNat ≤ 1 by omega) with
      zero | one
    · refine ⟨.named "THIS", Lowering.Location.find_eq_ok.mpr ⟨positive, ?_⟩, .this⟩
      simp only [Lowering.Location.ofIndex, zero]
    · refine ⟨.named "THAT", Lowering.Location.find_eq_ok.mpr ⟨positive, ?_⟩, .that⟩
      simp only [Lowering.Location.ofIndex, one]
  | staticVar =>
    exact ⟨_, Lowering.Location.find_eq_ok.mpr ⟨positive, rfl⟩, .staticVar⟩
  | argument | localVar | this | that => cases range

theorem StraightLine.exists_fragment (h : c.StraightLine) (number : Nat) :
    ∃ body, c.fragment number = .ok body := by
  cases c with
  | operator op => exact ⟨_, rfl⟩
  | access op segment index file =>
    obtain ⟨location, found, place⟩ := h.find
    show ∃ body, Lowering.access op segment index file = .ok body
    simp only [Lowering.access_eq_ok]
    cases op with
    | push => exact ⟨_, location, found, rfl⟩
    | pop =>
      cases place with
      | constant pushes => cases pushes
      | temp | this | that | staticVar => exact ⟨_, _, found, rfl⟩
  | label | goto | ifGoto | function | call | ret => cases h

/-- The labels of a comparison. -/
theorem StraightLine.numbered_of_labels (h : c.StraightLine) (inside : name ∈ c.labels number) :
    ∃ stem, '.' ∉ stem.toList ∧ name = Lowering.numbered stem number := by
  have compared : ∀ c : Lowering.Comparison, '.' ∉ c.branchStem.toList → '.' ∉ c.endStem.toList →
      name ∈ [c.branchLabel number, c.endLabel number] →
        ∃ stem, '.' ∉ stem.toList ∧ name = Lowering.numbered stem number := by
    intro c branch last either
    rcases List.mem_pair.mp either with rfl | rfl
    · exact ⟨c.branchStem, branch, rfl⟩
    · exact ⟨c.endStem, last, rfl⟩
  cases c with
  | operator op =>
    cases op with
    | eq => exact compared .equal (by decide) (by decide) inside
    | gt => exact compared .greater (by decide) (by decide) inside
    | lt => exact compared .less (by decide) (by decide) inside
    | add | sub | neg | and | or | not => cases inside
  | access => cases inside
  | label | goto | ifGoto | function | call | ret => cases h

/-- The only symbol that a command brings is that of its static variable. -/
theorem StraightLine.numbered_eq_compares (h : c.StraightLine) :
    (Session.Step.command c).numbered = (Session.Step.command c).compares := by
  cases c with
  | operator op => cases op <;> rfl
  | access => rfl
  | label | goto | ifGoto | function | call | ret => cases h

theorem StraightLine.symbols (h : c.StraightLine) :
    c.symbols = c.statics.map fun v => Lowering.staticSymbol v.1 v.2 := by
  cases c with
  | operator => rfl
  | access op segment => cases segment <;> rfl
  | label | goto | ifGoto | function | call | ret => cases h

end Command

/-! ### Programs -/

namespace Program

variable {commands : List Command} {program : Program} {lines : List Line} {rom : Array Word}
  {name : String}

theorem mem_of_mem_steps {options : Options} {c : Command}
    (inside : .command c ∈ (Session.Request.program commands options).steps) : c ∈ commands := by
  simp [Session.Request.steps] at inside
  exact inside

/-- A straight program is translated if the session has a number for each comparison and for the end
of the program. -/
theorem exists_ofCommands (straight : ∀ c ∈ commands, c.StraightLine) :
    (∃ program, ofCommands commands {} = .ok program) ∨
      Session.limit ≤ (commands.countP fun c => (Session.Step.command c).compares) + 1 ∧
        ofCommands commands {} = .error .numbersSpent := by
  have made : ∀ s ∈ (Session.Request.program commands {}).steps, ∀ number,
      ∃ block, s.make number = .ok block := by
    intro s inside number
    cases s with
    | bootstrap => exact ⟨_, rfl⟩
    | endProgram => exact ⟨_, rfl⟩
    | command c =>
      have line := straight c (mem_of_mem_steps inside)
      obtain ⟨body, fragment⟩ := line.exists_fragment number
      exact ⟨⟨c.text, body⟩, Command.block_eq_ok.mpr ⟨fragment, rfl⟩⟩
  have compared : commands.countP (fun c => (Session.Step.command c).numbered) =
      commands.countP fun c => (Session.Step.command c).compares := by
    refine List.countP_congr fun c inside => ?_
    rw [(straight c inside).numbered_eq_compares]
  have count : (Session.Request.program commands {}).steps.countP Session.Step.numbered =
      (commands.countP fun c => (Session.Step.command c).compares) + 1 := by
    rw [← compared, Session.Request.steps, List.countP_append, List.countP_append, List.countP_map]
    exact congrArg (· + 1) (Nat.zero_add _)
  have answered := Session.map_blocks_ofCommands commands {}
  rcases Session.run_mapM_of_make made 0 with ⟨blocks, runs⟩ | ⟨full, runs⟩
  · rw [runs] at answered
    obtain ⟨program, translated, -⟩ := Except.map_eq_ok.mp answered
    exact .inl ⟨program, translated⟩
  · rw [runs] at answered
    rw [count, Nat.zero_add] at full
    exact .inr ⟨full, Except.map_eq_error.mp answered⟩

/-- The labels of a program that declares none itself are all made up, so they are distinct. -/
theorem nodup_labels (straight : ∀ c ∈ commands, c.StraightLine)
    (translated : ofCommands commands {} = .ok program) : (labels commands {}).Nodup := by
  have answered := Session.map_blocks_ofCommands commands {}
  rw [translated] at answered
  have blocks := Session.blocks_of_mapM answered.symm
  have nodup := (Session.span_trace (Session.Request.program commands {}).steps 0).nodup
  have synthesized : Lines.declared program.body =
      (Session.trace 0 (Session.Request.program commands {}).steps).flatMap
        Session.Product.synthesized := by
    rw [body, blocks, List.flatMap_map, Lines.declared, List.filterMap_flatMap]
    apply List.flatMap_congr
    intro p inside
    have among := Session.mem_of_mem_trace inside
    obtain ⟨s, block⟩ := p
    cases s with
    | bootstrap => rfl
    | endProgram => rfl
    | command c =>
      have line := straight c (mem_of_mem_steps among)
      cases c with
      | operator | access => rfl
      | label | goto | ifGoto | function | call | ret => cases line
  rw [← declared_body translated, synthesized]
  exact nodup

theorem numbered_of_labels (straight : ∀ c ∈ commands, c.StraightLine)
    (inside : name ∈ labels commands {}) :
    ∃ stem number, '.' ∉ stem.toList ∧ name = Lowering.numbered stem number := by
  rcases List.mem_append.mp inside with front | last
  · obtain ⟨⟨number, c⟩, among, label⟩ := List.mem_flatMap.mp front
    obtain ⟨stem, plain, same⟩ :=
      (straight c (Command.mem_of_mem_numberFrom among)).numbered_of_labels label
    exact ⟨stem, number, plain, same⟩
  · exact ⟨"END_PROGRAM", _, by decide, List.mem_singleton.mp last⟩

/-- The code of a program refers to registers, to its own labels and to its static variables. -/
theorem references_straightLine (straight : ∀ c ∈ commands, c.StraightLine)
    (translated : ofCommands commands {} = .ok program)
    (inside : name ∈ Lines.references program.body) :
    name ∈ Lowering.registers ∨ name ∈ labels commands {} ∨
      ∃ v ∈ commands.flatMap Command.statics, name = Lowering.staticSymbol v.1 v.2 := by
  rcases references_body translated inside with
    register | label | ⟨boots, -⟩ | ⟨c, among, symbol⟩
  · exact .inl register
  · exact .inr (.inl label)
  · cases boots
  · rw [(straight c among).symbols] at symbol
    obtain ⟨v, own, rfl⟩ := List.mem_map.mp symbol
    exact .inr (.inr ⟨v, List.mem_flatMap.mpr ⟨c, among, own⟩, rfl⟩)

/-! ### Static variables -/

/-- The assembler allocates no cells but those of the static variables. -/
theorem length_variableNames (straight : ∀ c ∈ commands, c.StraightLine)
    (translated : ofCommands commands {} = .ok program) :
    (Lines.variableNames program.body).length ≤
      (commands.flatMap Command.statics).toFinset.card := by
  have nodup : (Lines.variableNames program.body).Nodup := Lines.nodup_eraseDups _
  have inside : (Lines.variableNames program.body).toFinset ⊆
      (commands.flatMap Command.statics).toFinset.image
        fun v => Lowering.staticSymbol v.1 v.2 := by
    intro name among
    obtain ⟨referred, unfixed⟩ := Lines.mem_variableNames.mp (List.mem_toFinset.mp among)
    rw [Lines.fixed?_eq_none, declared_body translated] at unfixed
    obtain ⟨unfixed, undeclared⟩ := unfixed
    rcases references_straightLine straight translated referred with
      register | label | ⟨v, own, rfl⟩
    · exact absurd unfixed (Lowering.registers_predefined name register)
    · exact absurd label undeclared
    · exact Finset.mem_image_of_mem _ (List.mem_toFinset.mpr own)
  rw [← List.toFinset_card_of_nodup nodup]
  exact (Finset.card_le_card inside).trans Finset.card_image_le

theorem fits_of_straightLine (straight : ∀ c ∈ commands, c.StraightLine)
    (few : (commands.flatMap Command.statics).toFinset.card ≤ 32752)
    (translated : ofCommands commands {} = .ok program)
    (short : (program.blocks.flatMap Block.instructions).length ≤ 32767) :
    Fits commands {} program := by
  apply Fits.of_few short
  · intro c inside
    exact (straight c inside).operandFits
  · exact nodup_labels straight translated
  · intro name inside
    obtain ⟨stem, number, -, rfl⟩ := numbered_of_labels straight inside
    exact Lowering.unfixed_numbered stem number
  · have cells := length_variableNames straight translated
    rw [variableNames_body translated] at cells
    omega

theorem Linked.lines_eq {options : Options} (h : Linked commands options program lines rom) :
    lines = program.body :=
  ((readSource_text (wellSpelled_blocks h.translated h.named)).mp h.reads).1

/-- A static symbol has a dot in it, which no made-up label has. -/
theorem Linked.undeclared_static (h : Linked commands {} program lines rom)
    (straight : ∀ c ∈ commands, c.StraightLine) (file : String) (index : Nat) :
    Lowering.staticSymbol file index ∉ Lines.declared lines := by
  rw [h.lines_eq, declared_body h.translated]
  intro label
  obtain ⟨stem, number, plain, same⟩ := numbered_of_labels straight label
  exact Lowering.numbered_ne_staticSymbol number plain file index same.symm

/-- The symbol of a static variable stands for the cell of its place among the variables. -/
theorem Linked.address_static (h : Linked commands {} program lines rom)
    (straight : ∀ c ∈ commands, c.StraightLine) {v : String × Nat}
    (own : v ∈ commands.flatMap Command.statics) :
    Lowering.staticSymbol v.1 v.2 ∈ Lines.variableNames lines ∧
      Lines.address lines (Lowering.staticSymbol v.1 v.2) =
        16 + (Lines.variableNames lines).idxOf (Lowering.staticSymbol v.1 v.2) ∧
      (program.placement {}).statics v.1 v.2 = Lowering.statics lines v.1 v.2 := by
  obtain ⟨c, among, own⟩ := List.mem_flatMap.mp own
  obtain ⟨op, index, file, rfl, rfl⟩ := Command.access_of_mem_statics own
  obtain ⟨i, found⟩ := List.getElem?_of_mem among
  have isName := h.isSymbol_file found rfl
  have referred := mem_references_static h.translated h.reads found isName
  have free : Lines.fixed? lines (Lowering.staticSymbol file index.toInt.toNat) = none :=
    Lines.fixed?_eq_none.mpr
      ⟨Lowering.unfixed_staticSymbol file _, h.undeclared_static straight file _⟩
  have inside := Lines.mem_variableNames.mpr ⟨referred, free⟩
  exact ⟨inside, Lines.address_variableNames inside, statics_eq h.translated h.reads found isName⟩

theorem Linked.apart (h : Linked commands {} program lines rom)
    (straight : ∀ c ∈ commands, c.StraightLine)
    (few : (commands.flatMap Command.statics).toFinset.card ≤ 240) :
    Apart (program.placement {}).statics (commands.flatMap Command.statics) := by
  have count := length_variableNames straight h.translated
  rw [← h.lines_eq] at count
  have number : ∀ v ∈ commands.flatMap Command.statics,
      ((program.placement {}).statics v.1 v.2).toNat =
        16 + (Lines.variableNames lines).idxOf (Lowering.staticSymbol v.1 v.2) ∧
      (Lines.variableNames lines).idxOf (Lowering.staticSymbol v.1 v.2) < 240 := by
    intro v own
    obtain ⟨inside, address, same⟩ := h.address_static straight own
    have index := List.idxOf_lt_length_of_mem inside
    rw [same, Lowering.statics, Lines.cell, BitVec.toNat_ofNat, address]
    omega
  constructor
  · intro v own
    have := number v own
    omega
  · intro v own
    have := number v own
    rw [Platform.stackBase]
    omega
  · intro v own w other same
    have cells := congrArg BitVec.toNat same
    rw [(number v own).1, (number w other).1] at cells
    have inside := (h.address_static straight own).1
    have equal : Lowering.staticSymbol v.1 v.2 = Lowering.staticSymbol w.1 w.2 :=
      (List.idxOf_inj inside).mp (by omega)
    obtain ⟨file, index⟩ := Lowering.staticSymbol_injective equal
    exact Prod.ext file index

end Program

end HackToolchain
