import HackToolchain.Proofs.Lowering.ReadBack

/-! When the assembler takes a translated program: its operands, labels and variables must have
room in the address space, and nothing else can go wrong. -/

namespace HackToolchain

/-! ### Literals and labels of a program -/

namespace Lines

theorem literals_append (front back : List Line) :
    literals (front ++ back) = literals front ++ literals back := by
  simp [literals]

theorem literals_flatten_replicate (count : Nat) (lines : List Line) :
    literals (List.replicate count lines).flatten =
      (List.replicate count (literals lines)).flatten := by
  induction count with
  | zero => rfl
  | succ count ih =>
    rw [List.replicate_succ, List.flatten_cons, literals_append, ih, List.replicate_succ,
      List.flatten_cons]

theorem declared_flatten_replicate {count : Nat} {lines : List Line} (h : declared lines = []) :
    declared (List.replicate count lines).flatten = [] := by
  induction count with
  | zero => rfl
  | succ count ih => rw [List.replicate_succ, List.flatten_cons, declared_append, h, ih]; rfl

end Lines

namespace Command

/-- The operand of a command fits in an address instruction: the index itself, or the number of
arguments together with the frame. -/
def OperandFits : Command → Prop
  | access op segment index _ =>
    (segment = .constant ∧ op = .push ∨ segment ∈ [.argument, .localVar, .this, .that]) →
      index.toInt ≤ 32767
  | call _ args => args.toNat ≤ 32762
  | _ => True

instance : DecidablePred OperandFits
  | access op segment index _ => inferInstanceAs (Decidable
    ((segment = .constant ∧ op = .push ∨ segment ∈ [.argument, .localVar, .this, .that]) →
      index.toInt ≤ 32767))
  | call _ args => inferInstanceAs (Decidable (args.toNat ≤ 32762))
  | operator _ | label _ | goto _ | ifGoto _ | function .. | ret => .isTrue trivial

/-- The labels that a command declares under its number. -/
def labels (number : Nat) : Command → List String
  | label name => [Text.upper name]
  | function name _ => [name]
  | call name _ => [Lowering.returnLabel name number]
  | operator op => match Lowering.operation op with
    | .comparison c => [c.branchLabel number, c.endLabel number]
    | _ => []
  | _ => []

end Command

namespace Lowering

/-- The literals that the transfers to and from a location load. -/
def Location.literals : Location → List Nat
  | constant value => [value]
  | named _ => []
  | indirect _ offset => [offset]
  | temp offset => [Platform.tempBase, offset]

theorem Location.literals_push (location : Location) :
    Lines.literals location.push = location.literals := by
  cases location <;> rfl

theorem Location.literals_pop {location : Location} {body : Fragment}
    (h : location.pop = .ok body) : Lines.literals body = location.literals := by
  cases location <;> cases h <;> rfl

theorem Location.declared_push (location : Location) : Lines.declared location.push = [] := by
  cases location <;> rfl

theorem Location.declared_pop {location : Location} {body : Fragment}
    (h : location.pop = .ok body) : Lines.declared body = [] := by
  cases location <;> cases h <;> rfl

theorem literals_access {op : StackOp} {segment : Segment} {index : Int32} {file : String}
    {body : Fragment} (h : access op segment index file = .ok body) :
    (∀ value ∈ Lines.literals body, value ≤ Platform.maxAddress) ↔
      ((segment = .constant ∧ op = .push ∨ segment ∈ [.argument, .localVar, .this, .that]) →
        index.toInt ≤ 32767) := by
  obtain ⟨location, found, transfer⟩ := access_eq_ok.mp h
  obtain ⟨positive, found⟩ := Location.find_eq_ok.mp found
  have same : Lines.literals body = location.literals := by
    cases op with
    | push => rw [transfer, Location.literals_push]
    | pop => exact Location.literals_pop transfer
  have popped : segment = .constant → op = .push := by
    rintro rfl
    cases found
    cases op with
    | push => rfl
    | pop => cases transfer
  have bound : index.toInt.toNat ≤ 32767 ↔ index.toInt ≤ 32767 := by omega
  rw [same]
  cases segment with
  | argument | localVar | this | that =>
    cases found
    simpa [Location.literals, Platform.maxAddress] using bound
  | pointer =>
    simp only [Location.ofIndex] at found
    split at found <;> cases found <;> simp [Location.literals]
  | temp =>
    simp only [Location.ofIndex] at found
    split at found
    · next small =>
      cases found
      rw [Platform.tempSize] at small
      have : index.toInt.toNat ≤ 32767 := by omega
      simpa [Location.literals, Platform.tempBase, Platform.maxAddress] using this
    · cases found
  | constant =>
    cases found
    simpa [Location.literals, Platform.maxAddress, popped rfl] using bound
  | staticVar =>
    cases found
    simp [Location.literals]

theorem declared_access {op : StackOp} {segment : Segment} {index : Int32} {file : String}
    {body : Fragment} (h : access op segment index file = .ok body) :
    Lines.declared body = [] := by
  obtain ⟨location, -, transfer⟩ := access_eq_ok.mp h
  cases op with
  | push => rw [transfer, Location.declared_push]
  | pop => exact Location.declared_pop transfer

theorem literals_operator (op : Operator) (number : Nat) :
    Lines.literals (operator op number) = [] := by
  cases op <;> rfl

theorem literals_function (name : String) (locals : Nat) :
    Lines.literals (function name locals) = List.replicate locals 0 := by
  show Lines.literals (List.replicate locals pushZero).flatten = _
  rw [Lines.literals_flatten_replicate, show Lines.literals pushZero = [0] from rfl,
    List.flatten_replicate_singleton]

theorem declared_function (name : String) (locals : Nat) :
    Lines.declared (function name locals) = [name] := by
  show name :: Lines.declared (List.replicate locals pushZero).flatten = _
  rw [Lines.declared_flatten_replicate rfl]

end Lowering

namespace Command

variable {c : Command} {number : Nat} {body : Lowering.Fragment}

theorem literals_fragment (h : c.fragment number = .ok body) :
    (∀ value ∈ Lines.literals body, value ≤ Platform.maxAddress) ↔ c.OperandFits := by
  cases c with
  | access op segment index file => exact Lowering.literals_access h
  | operator op =>
    cases h
    rw [Lowering.literals_operator]
    simp [OperandFits]
  | label name | goto name | ifGoto name =>
    cases h
    simp [OperandFits, Lines.literals, Line.literal?, Lowering.label, Lowering.goto,
      Lowering.ifGoto, Lowering.popData, Lowering.popThrough, Lowering.symbol, Lowering.assign,
      Lowering.jump]
  | function name locals =>
    cases h
    rw [Lowering.literals_function]
    simp [OperandFits, List.mem_replicate]
  | call name args =>
    cases h
    have single : Lines.literals (Lowering.call name args.toNat number) = [args.toNat + 5] := rfl
    rw [single, List.forall_mem_singleton, OperandFits, Platform.maxAddress]
    omega
  | ret =>
    cases h
    simp only [OperandFits, iff_true]
    decide

theorem declared_fragment (h : c.fragment number = .ok body) :
    Lines.declared body = c.labels number := by
  cases c with
  | access op segment index file => exact Lowering.declared_access h
  | operator op =>
    cases h
    cases op <;> rfl
  | function name locals =>
    cases h
    exact Lowering.declared_function name locals.toNat
  | label name | goto name | ifGoto name | call name args | ret =>
    cases h
    rfl

/-! ### Blocks of commands -/

variable {entries : List (Nat × Command)} {blocks : List Block}

theorem numberedBlock_eq_ok {entry : Nat × Command} {block : Block}
    (h : numberedBlock entry = .ok block) :
    entry.2.fragment entry.1 = .ok block.body ∧ block.title = entry.2.text :=
  block_eq_ok.mp h

theorem declared_blocks (h : List.Forall₂ (fun entry block => numberedBlock entry = .ok block)
    entries blocks) : Lines.declared (blocks.flatMap Block.body) =
      entries.flatMap fun entry => entry.2.labels entry.1 := by
  induction h with
  | nil => rfl
  | cons here _ ih =>
    rw [List.flatMap_cons, List.flatMap_cons, Lines.declared_append, ih,
      declared_fragment (numberedBlock_eq_ok here).1]

theorem literals_blocks (h : List.Forall₂ (fun entry block => numberedBlock entry = .ok block)
    entries blocks) :
    (∀ value ∈ Lines.literals (blocks.flatMap Block.body), value ≤ Platform.maxAddress) ↔
      ∀ c ∈ entries.map (·.2), c.OperandFits := by
  induction h with
  | nil => simp [Lines.literals]
  | cons here _ ih =>
    rw [List.flatMap_cons, Lines.literals_append, List.forall_mem_append, ih, List.map_cons,
      List.forall_mem_cons, literals_fragment (numberedBlock_eq_ok here).1]

theorem wellSpelled_blocks (h : List.Forall₂ (fun entry block => numberedBlock entry = .ok block)
    entries blocks) (named : ∀ c ∈ entries.map (·.2), c.Named) :
    ∀ block ∈ blocks, block.WellSpelled := by
  induction h with
  | nil => simp
  | cons here _ ih =>
    rw [List.map_cons, List.forall_mem_cons] at named
    obtain ⟨fragment, title⟩ := numberedBlock_eq_ok here
    exact List.forall_mem_cons.mpr ⟨wellSpelled_block named.1 fragment title, ih named.2⟩

end Command

namespace Program

variable {commands : List Command} {options : Options} {program : Program}

/-- The number of the closing loop. -/
def lastNumber (commands : List Command) (options : Options) : Nat :=
  Command.numberAfter (Session.firstNumber options 0) commands

/-- The labels that a program declares: of the bootstrap code, of every command under its number,
and of the closing loop. -/
def labels (commands : List Command) (options : Options) : List String :=
  (if options.bootstrap then [Lowering.returnLabel Platform.entryFunction 0] else []) ++
    (Command.numberFrom (Session.firstNumber options 0) commands).flatMap
      (fun entry => entry.2.labels entry.1) ++
    (if options.terminate then [Lowering.endLabel (lastNumber commands options)] else [])

theorem declared_body (h : Program.ofCommands commands options = .ok program) :
    Lines.declared program.body = labels commands options := by
  obtain ⟨blocks, translated, split⟩ := blocks_of_session h
  rw [body, split, List.flatMap_append, List.flatMap_append, Lines.declared_append,
    Lines.declared_append, Command.declared_blocks (mapM_eq_ok_iff.mp translated), labels,
    Session.firstBlocks, Session.lastBlocks, lastNumber]
  congr 1
  · congr 1
    split <;> rfl
  · split <;> rfl

theorem literals_body (h : Program.ofCommands commands options = .ok program) :
    (∀ value ∈ Lines.literals program.body, value ≤ Platform.maxAddress) ↔
      ∀ c ∈ commands, c.OperandFits := by
  obtain ⟨blocks, translated, split⟩ := blocks_of_session h
  have inner := Command.literals_blocks (mapM_eq_ok_iff.mp translated)
  rw [Command.map_snd_numberFrom] at inner
  have first : ∀ value ∈ Lines.literals ((Session.firstBlocks options 0).flatMap Block.body),
      value ≤ Platform.maxAddress := by
    rw [Session.firstBlocks]
    split <;> decide
  have last : ∀ number, Lines.literals ((Session.lastBlocks options number).flatMap Block.body) =
      [] := by
    intro number
    rw [Session.lastBlocks]
    split <;> rfl
  rw [body, split, List.flatMap_append, List.flatMap_append, Lines.literals_append,
    Lines.literals_append, last, List.append_nil, List.forall_mem_append, inner]
  exact and_iff_right first

theorem wellSpelled_blocks (h : Program.ofCommands commands options = .ok program)
    (named : ∀ c ∈ commands, c.Named) : ∀ block ∈ program.blocks, block.WellSpelled := by
  obtain ⟨blocks, translated, split⟩ := blocks_of_session h
  have inner := Command.wellSpelled_blocks (mapM_eq_ok_iff.mp translated)
    (by rwa [Command.map_snd_numberFrom])
  rw [split, List.forall_mem_append, List.forall_mem_append]
  refine ⟨⟨?_, inner⟩, ?_⟩
  · rw [Session.firstBlocks]
    split
    · exact List.forall_mem_singleton.mpr ⟨by decide, Lowering.wellSpelled_bootstrap 0⟩
    · simp
  · rw [Session.lastBlocks]
    split
    · have title : '\n' ∉ "end program".toList := by decide
      exact List.forall_mem_singleton.mpr ⟨title, Lowering.wellSpelled_endLoop _⟩
    · simp

/-- The operands, labels and variables of a program have room in the address space. -/
structure Fits (commands : List Command) (options : Options) (program : Program) : Prop where
  operands : ∀ c ∈ commands, c.OperandFits
  distinct : (labels commands options).Nodup
  unfixed : ∀ name ∈ labels commands options, predefinedSymbols.lookup name = none
  size : (program.blocks.flatMap Block.instructions).length ≤ 65535
  /-- A label that is referred to stands behind at most 32767 instructions. -/
  references : ∀ front name back, program.body = front ++ .label name :: back →
    name ∈ Lines.references program.body → (front.filterMap Line.instruction?).length ≤ 32767
  unbound : ((Lines.references program.body).filter fun name =>
    predefinedSymbols.lookup name = none ∧ name ∉ labels commands options).eraseDups.length ≤ 32752

theorem code_body (program : Program) :
    Lines.code program.body = program.blocks.flatMap Block.instructions := by
  rw [body, Lines.code, List.filterMap_flatMap]
  rfl

theorem variableNames_body (h : Program.ofCommands commands options = .ok program) :
    Lines.variableNames program.body =
      ((Lines.references program.body).filter fun name =>
        predefinedSymbols.lookup name = none ∧ name ∉ labels commands options).eraseDups := by
  have same : ∀ name, (Lines.fixed? program.body name).isNone =
      decide (predefinedSymbols.lookup name = none ∧ name ∉ labels commands options) := by
    intro name
    rw [Bool.eq_iff_iff, Option.isNone_iff_eq_none, Lines.fixed?_eq_none, declared_body h,
      decide_eq_true_eq]
  rw [Lines.variableNames, freeSymbols, Lines.references]
  simp only [same]

theorem wellSpelled_body (h : Program.ofCommands commands options = .ok program)
    (named : ∀ c ∈ commands, c.Named) : ∀ line ∈ program.body, line.WellSpelled := by
  intro line inside
  obtain ⟨block, hBlock, inside⟩ := List.mem_flatMap.mp inside
  exact (wellSpelled_blocks h named block hBlock).body line inside

theorem fits_of_assemble (h : Program.ofCommands commands options = .ok program)
    (named : ∀ c ∈ commands, c.Named) {image : Image}
    (assembled : assemble program.text = .ok image) : Fits commands options program := by
  obtain ⟨lines, reads, placeable, encoded⟩ := assemble_eq_ok_iff.mp assembled
  obtain ⟨rfl, -⟩ := (readSource_text (wellSpelled_blocks h named)).mp reads
  obtain ⟨values, names⟩ := (Lines.exists_words_iff (wellSpelled_body h named)).mp ⟨_, encoded⟩
  obtain ⟨references, unbound⟩ := (Lines.references_le_iff placeable).mp names
  rw [variableNames_body h] at unbound
  exact {
    operands := (literals_body h).mp values
    distinct := declared_body h ▸ placeable.nodup
    unfixed := declared_body h ▸ placeable.unfixed
    size := code_body program ▸ placeable.fits
    references := references
    unbound := unbound }

theorem exists_assemble_of_fits (h : Program.ofCommands commands options = .ok program)
    (named : ∀ c ∈ commands, c.Named) (fits : Fits commands options program) :
    ∃ image, assemble program.text = .ok image := by
  have size : Lines.size program.body ≤ Layout.capacity := by
    rw [Lines.size, code_body]
    exact fits.size
  have placeable : Lines.Placeable program.body :=
    ⟨(declared_body h).symm ▸ fits.distinct, (declared_body h).symm ▸ fits.unfixed, size⟩
  have values := (literals_body h).mpr fits.operands
  have unbound := fits.unbound
  rw [← variableNames_body h] at unbound
  have names := (Lines.references_le_iff placeable).mpr ⟨fits.references, unbound⟩
  obtain ⟨words, encoded⟩ :=
    (Lines.exists_words_iff (wellSpelled_body h named)).mpr ⟨values, names⟩
  have reads : readSource program.text = .ok program.body := by
    refine (readSource_text (wellSpelled_blocks h named)).mpr ⟨rfl, fun value inside => ?_⟩
    have := values value (Lines.mem_literals.mpr inside)
    rw [Platform.maxAddress] at this
    omega
  exact ⟨⟨words.toArray⟩, assemble_eq_ok_iff.mpr ⟨_, reads, placeable, encoded⟩⟩

/-- The assembler takes a translated program if and only if it has room in the address space, and
it knows all its mnemonics. -/
theorem exists_assemble_text_iff (h : Program.ofCommands commands options = .ok program)
    (named : ∀ c ∈ commands, c.Named) :
    ((∃ image, assemble program.text = .ok image) ↔ Fits commands options program) ∧
      ∀ dest comp jmp, .compute dest comp jmp ∈ program.blocks.flatMap Block.instructions →
        ∃ word, Mnemonic.encode dest comp jmp = .ok word := by
  refine ⟨⟨?_, exists_assemble_of_fits h named⟩, ?_⟩
  · rintro ⟨image, assembled⟩
    exact fits_of_assemble h named assembled
  · intro dest comp jmp inside
    rw [← code_body] at inside
    exact wellSpelled_body h named _ (Lines.mem_code.mp inside)

/-- A program of at most 32767 instructions has room for them, and all its labels can be referred
to. -/
theorem Fits.of_few (few : (program.blocks.flatMap Block.instructions).length ≤ 32767)
    (operands : ∀ c ∈ commands, c.OperandFits) (distinct : (labels commands options).Nodup)
    (unfixed : ∀ name ∈ labels commands options, predefinedSymbols.lookup name = none)
    (unbound : ((Lines.references program.body).filter fun name =>
      predefinedSymbols.lookup name = none ∧ name ∉ labels commands options).eraseDups.length ≤
        32752) : Fits commands options program where
  operands := operands
  distinct := distinct
  unfixed := unfixed
  size := by omega
  references front name back split _ := by
    have whole : Lines.code front ++ Lines.code back =
        program.blocks.flatMap Block.instructions := by
      rw [← code_body, split, Lines.code_append, Lines.code_label]
    rw [← whole, List.length_append] at few
    have : (front.filterMap Line.instruction?).length = (Lines.code front).length := rfl
    omega
  unbound := unbound

/-- A small program with few open symbols is accepted. -/
theorem exists_assemble_of_few (h : Program.ofCommands commands options = .ok program)
    (named : ∀ c ∈ commands, c.Named) (operands : ∀ c ∈ commands, c.OperandFits)
    (distinct : (labels commands options).Nodup)
    (unfixed : ∀ name ∈ labels commands options, predefinedSymbols.lookup name = none)
    (few : (program.blocks.flatMap Block.instructions).length ≤ 32767)
    (unbound : ((Lines.references program.body).filter fun name =>
      predefinedSymbols.lookup name = none ∧ name ∉ labels commands options).eraseDups.length ≤
        32752) : ∃ image, assemble program.text = .ok image :=
  exists_assemble_of_fits h named (.of_few few operands distinct unfixed unbound)

/-- The greatest constant and the greatest number of arguments that there is room for. -/
def greatestOperands : List Command :=
  [.label "loop", .access .push .constant 32767 "Main", .access .pop .staticVar 3 "Main",
    .call "Main.run" 32762, .goto "LOOP"]

theorem exists_assemble_greatestOperands :
    ∃ program, Program.ofCommands greatestOperands {} = .ok program ∧
      ∃ image, assemble program.text = .ok image := by
  obtain ⟨program, translated⟩ : ∃ program, Program.ofCommands greatestOperands {} = .ok program :=
    ⟨_, rfl⟩
  have few : (program.blocks.flatMap Block.instructions).length ≤ 32767 := by
    cases translated
    decide
  refine ⟨program, translated, (exists_assemble_text_iff translated (by decide)).1.mpr ?_⟩
  refine .of_few few (by decide) (by decide) (by decide) ?_
  cases translated
  decide

end Program

end HackToolchain
