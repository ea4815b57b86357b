import HackToolchain.Proofs.Lowering.Accesses
import HackToolchain.Proofs.Lowering.BlockAddresses
import HackToolchain.Proofs.Lowering.Calls
import HackToolchain.Proofs.Lowering.Operators
import HackToolchain.Proofs.StackMachine.Scratch

/-! A translated program in the ROM: where the targets of its jumps and its static variables are,
and the run of the processor through the block of each command. -/

namespace HackToolchain

open StackMachine

namespace Program

/-- What a program sees of its translation: the cells of its static variables, as the assembler
resolves their symbols, and the ROM addresses of its commands. -/
def placement (program : Program) (options : Options) : Placement where
  statics file index := BitVec.ofNat 15
    (SourceText.address (SourceText.lines program.text) (Lowering.staticSymbol file index))
  address index := program.commandAddress options index

section

variable {commands : List Command} {options : Options} {program : Program} {lines : List Line}
  {i n : Nat} {op : StackOp} {segment : Segment} {index : Int32} {file : String}

theorem mem_references_static
    (translated : ((Session.program commands options).run.run n).1 = .ok program)
    (reads : readSource program.text = .ok lines)
    (found : commands[i]? = some (.access op .staticVar index file))
    (isName : isSymbol file.toList) :
    Lowering.staticSymbol file index.toInt.toNat ∈ Lines.references lines := by
  obtain ⟨number, front, body, back, fragment, split, -, -⟩ :=
    split_command translated reads found (by simpa [Command.Named, Command.names] using isName)
  rw [Lines.mem_references, split, (Lowering.staticAccess_eq_ok.mp fragment).2]
  simp [Lowering.symbol]

theorem statics_eq (translated : ((Session.program commands options).run.run n).1 = .ok program)
    (reads : readSource program.text = .ok lines)
    (found : commands[i]? = some (.access op .staticVar index file))
    (isName : isSymbol file.toList) :
    (program.placement options).statics file index.toInt.toNat =
      Lowering.statics lines file index.toInt.toNat :=
  congrArg (BitVec.ofNat 15) (address_of_readSource reads
    (mem_references_static translated reads found isName)
    (Lowering.isSymbol_staticSymbol _ isName))

/-- An access is carried out as if its operand were in the cell that the assembler gave it. -/
theorem access_eq (translated : ((Session.program commands options).run.run n).1 = .ok program)
    (reads : readSource program.text = .ok lines)
    (found : commands[i]? = some (.access op segment index file))
    (named : segment = .staticVar → isSymbol file.toList) :
    access .inCells (program.placement options).statics op segment index.toInt.toNat file =
      access .inCells (Lowering.statics lines) op segment index.toInt.toNat file := by
  have same : segmentCell .inCells (program.placement options).statics segment index.toInt.toNat
      file = segmentCell .inCells (Lowering.statics lines) segment index.toInt.toNat file := by
    cases segment with
    | staticVar => exact congrArg pure (statics_eq translated reads found (named rfl))
    | argument | localVar | this | that | temp | pointer | constant => rfl
  cases op with
  | push => simp only [access, same]
  | pop => simp only [access, same]

end

theorem placement_address (program : Program) (options : Options) (index : Nat) :
    (program.placement options).address index = program.commandAddress options index := rfl

/-- A program whose text reads as some lines that lie in a ROM. -/
structure Linked (commands : List Command) (options : Options) (program : Program)
    (lines : List Line) (rom : Array Word) : Prop where
  translated : Program.ofCommands commands options = .ok program
  named : ∀ c ∈ commands, c.Named
  reads : readSource program.text = .ok lines
  assembled : Lines.Assembled lines rom

end Program

namespace Program.Linked

variable {commands : List Command} {options : Options} {program : Program} {lines : List Line}
  {rom : Array Word} {i j : Nat} {c : Command} {name : String}

theorem split (h : Linked commands options program lines rom) (found : commands[i]? = some c) :
    ∃ number front body back, c.fragment number = .ok body ∧ lines = front ++ body ++ back ∧
      Lines.size front = program.commandAddress options i ∧
        Lines.size front + Lines.size body = program.commandAddress options (i + 1) :=
  split_command h.translated h.reads found (h.named c (List.mem_of_getElem? found))

/-! ### Targets -/

/-- A declaration stands where the block of its command starts. -/
theorem address_declared (h : Linked commands options program lines rom)
    (found : commands[i]? = some c) (declares : c.declares name) :
    Lines.address lines name = program.commandAddress options i := by
  obtain ⟨number, front, body, back, fragment, split, start, -⟩ := h.split found
  cases c with
  | label declared =>
    cases fragment
    obtain rfl : Text.upper declared = name := of_decide_eq_true declares
    rw [h.assembled.address_label split (show _ = [] ++ _ from rfl), Lines.size_nil,
      Nat.add_zero, start]
  | function declared locals =>
    cases fragment
    obtain rfl : declared = name := of_decide_eq_true declares
    rw [h.assembled.address_label split (show _ = [] ++ _ from rfl), Lines.size_nil,
      Nat.add_zero, start]
  | operator op | access op segment index file | goto other | ifGoto other | call other args
  | ret => cases declares

theorem address_target (h : Linked commands options program lines rom) {ram after : Ram}
    (jumps : target commands name ram = some (j, after)) :
    after = ram ∧ Lines.address lines name = program.commandAddress options j := by
  obtain ⟨found, same⟩ := target_eq_some.mp jumps
  obtain ⟨inside, declares, -⟩ := List.findIdx?_eq_some_iff_getElem.mp found
  exact ⟨same, h.address_declared (List.getElem?_eq_getElem inside) declares⟩

theorem address_resume {back : Word} {ram after : Ram}
    (returns : resume (program.placement options) commands back ram = some (j, after)) :
    after = ram ∧ back.toNat = program.commandAddress options j := by
  obtain ⟨index, found, same⟩ := Option.map_eq_some_iff.mp returns
  cases same
  have same := List.find?_some found
  rw [decide_eq_true_eq, placement_address] at same
  exact ⟨rfl, same.symm⟩

/-! ### Static variables -/

theorem isSymbol_file (h : Linked commands options program lines rom) {op : StackOp}
    {segment : Segment} {index : Int32} {file : String}
    (found : commands[i]? = some (.access op segment index file)) (static : segment = .staticVar) :
    isSymbol file.toList :=
  h.named _ (List.mem_of_getElem? found) file (by simp [Command.names, static])

theorem access_eq (h : Linked commands options program lines rom) {op : StackOp}
    {segment : Segment} {index : Int32} {file : String}
    (found : commands[i]? = some (.access op segment index file)) :
    access .inCells (program.placement options).statics op segment index.toInt.toNat file =
      access .inCells (Lowering.statics lines) op segment index.toInt.toNat file :=
  Program.access_eq h.translated h.reads found (h.isSymbol_file found)

/-! ### Blocks -/

section

variable {s : Store} {ram : Ram}

/-- The effect of a block: the processor gets to the block of the command that follows. It may halt
there only after a jump to the block itself. -/
def Reaches (program : Program) (options : Options) (rom : Array Word) (s : Store) (c : Command)
    (i j : Nat) (ram : Ram) : Prop :=
  ∃ n, ∃ t : Store, ∃ parked : Bool, t.ram = ram ∧
    Cpu.Steps n (s.cpu rom (program.commandAddress options i))
      (t.jumped rom (program.commandAddress options j) parked) ∧
    (parked = true → (∃ name, c = .goto name) ∧
      program.commandAddress options j = program.commandAddress options i)

theorem Reaches.of_steps {n : Nat} {t : Store} (same : t.ram = ram)
    (steps : Cpu.Steps n (s.cpu rom (program.commandAddress options i))
      (t.cpu rom (program.commandAddress options j))) :
    Reaches program options rom s c i j ram :=
  ⟨n, t, false, same, steps, fun parked => absurd parked Bool.false_ne_true⟩

/-- A block of a computation without jumps. -/
theorem reaches_next {front body back : List Line} {m : Memory Unit}
    (h : Linked commands options program lines rom) (performs : Performs lines body m)
    (split : lines = front ++ body ++ back)
    (start : Lines.size front = program.commandAddress options i)
    (stop : Lines.size front + Lines.size body = program.commandAddress options (i + 1))
    (run : m s.ram = some ((), ram)) : Reaches program options rom s c i (i + 1) ram := by
  obtain ⟨t, same, steps⟩ := performs.steps (h.assembled.loaded split) run
  rw [stop, start] at steps
  exact .of_steps same steps

theorem jumped_inside (i : Nat) {t : Store} {address : Nat}
    (after : program.commandAddress options i < address)
    (before : address < program.commandAddress options (i + 1)) :
    t.jumped rom (program.commandAddress options j)
      (decide (program.commandAddress options j = address)) =
        t.cpu rom (program.commandAddress options j) :=
  Store.jumped_of_not (commandAddress_ne i after before)

theorem reaches_goto (h : Linked commands options program lines rom)
    (found : commands[i]? = some (.goto name))
    (jumps : target commands name s.ram = some (j, ram)) :
    Reaches program options rom s (.goto name) i j ram := by
  obtain ⟨number, front, body, back, fragment, split, start, -⟩ := h.split found
  cases fragment
  obtain ⟨rfl, place⟩ := h.address_target jumps
  obtain ⟨t, same, steps⟩ := steps_goto (s := s) (h.assembled.loaded split)
  rw [place, start] at steps
  exact ⟨2, t, _, same, steps, fun parked => ⟨⟨name, rfl⟩, of_decide_eq_true parked⟩⟩

theorem reaches_ifGoto (h : Linked commands options program lines rom)
    (found : commands[i]? = some (.ifGoto name))
    (run : execute .inCells (program.placement options) commands i (.ifGoto name) s.ram =
      some (j, ram)) : Reaches program options rom s (.ifGoto name) i j ram := by
  obtain ⟨number, front, body, back, fragment, split, start, stop⟩ := h.split found
  cases fragment
  have loaded := h.assembled.loaded split
  rw [Lowering.ifGoto, Lines.code_append, loaded_append] at loaded
  obtain ⟨top, popped, pops, run⟩ := bind_eq_some.mp run
  obtain ⟨t, rfl, rfl, first⟩ := Lowering.realizes_popData.steps loaded.1 pops
  obtain ⟨u, same, second⟩ : ∃ u : Store, u.ram = t.ram ∧
      Cpu.Steps 2 (t.cpu rom (Lines.size front + 4))
        (if Mnemonic.condition "JNE" t.d then
          u.jumped rom (Lines.address lines name) (Lines.address lines name = Lines.size front + 4)
        else u.cpu rom (Lines.size front + 6)) := steps_branch loaded.2
  have next : Lines.size front + 6 = program.commandAddress options (i + 1) := stop
  rw [start] at next
  have steps := first.trans second
  rw [start] at steps
  by_cases zero : t.d = 0
  · rw [if_pos zero] at run
    cases run
    rw [if_neg (by simp [Mnemonic.condition, zero]), next] at steps
    exact .of_steps same steps
  · rw [if_neg zero] at run
    obtain ⟨rfl, place⟩ := h.address_target run
    have taken : Mnemonic.condition "JNE" t.d = true := by
      have : t.d.toInt ≠ 0 := fun same => zero (BitVec.toInt_inj.mp same)
      simpa [Mnemonic.condition] using this
    rw [if_pos taken, place, jumped_inside i (by omega) (by omega)] at steps
    exact .of_steps same steps

theorem reaches_call (h : Linked commands options program lines rom) {args : UInt16}
    (found : commands[i]? = some (.call name args))
    (run : execute .inCells (program.placement options) commands i (.call name args) s.ram =
      some (j, ram)) : Reaches program options rom s (.call name args) i j ram := by
  obtain ⟨number, front, body, back, fragment, split, start, stop⟩ := h.split found
  cases fragment
  have next : Lines.size front + 47 = program.commandAddress options (i + 1) := stop
  rw [start] at next
  obtain ⟨_, entered, enters, jumps⟩ := bind_eq_some.mp run
  obtain ⟨rfl, place⟩ := h.address_target jumps
  rw [placement_address, ← next, ← start] at enters
  obtain ⟨t, same, steps⟩ := Lowering.steps_call h.assembled split enters
  rw [place, start, jumped_inside i (by omega) (by omega)] at steps
  exact .of_steps same steps

theorem reaches_ret (h : Linked commands options program lines rom)
    (found : commands[i]? = some .ret)
    (run : execute .inCells (program.placement options) commands i .ret s.ram = some (j, ram)) :
    Reaches program options rom s .ret i j ram := by
  obtain ⟨number, front, body, back, fragment, split, start, stop⟩ := h.split found
  cases fragment
  have next : Lines.size front + 43 = program.commandAddress options (i + 1) := stop
  rw [start] at next
  obtain ⟨kept, left, leaves, returns⟩ := bind_eq_some.mp run
  obtain ⟨rfl, place⟩ := address_resume returns
  obtain ⟨t, same, steps⟩ := Lowering.steps_ret h.assembled split leaves
  have outside : program.commandAddress options j ≠ Lines.size front + 41 := by
    rw [start]
    exact commandAddress_ne i (by omega) (by omega)
  rw [place, decide_eq_false fun both => outside both.1, start] at steps
  exact .of_steps same steps

/-- Every command that the machine executes is a run of the processor through its block. -/
theorem reaches_execute (h : Linked commands options program lines rom)
    (found : commands[i]? = some c)
    (run : execute .inCells (program.placement options) commands i c s.ram = some (j, ram)) :
    Reaches program options rom s c i j ram := by
  obtain ⟨number, front, body, back, fragment, split, start, stop⟩ := h.split found
  cases c with
  | operator op =>
    cases fragment
    obtain ⟨_, after, operates, last⟩ := bind_eq_some.mp run
    cases last
    obtain ⟨n, -, t, same, steps⟩ := Lowering.steps_operator h.assembled split operates
    rw [stop, start] at steps
    exact .of_steps same steps
  | access op segment index file =>
    obtain ⟨_, after, accesses, last⟩ := bind_eq_some.mp run
    cases last
    rw [h.access_eq found] at accesses
    exact h.reaches_next (Lowering.performs_access fragment) split start stop accesses
  | label declared =>
    cases fragment
    cases run
    exact h.reaches_next (performs_nil.label (Text.upper declared)) split start stop rfl
  | function declared locals =>
    cases fragment
    obtain ⟨_, after, clears, last⟩ := bind_eq_some.mp run
    cases last
    have zeros : Performs lines (Lowering.function declared locals.toNat) _ :=
      (Lowering.performs_pushZeros locals.toNat).label declared
    exact h.reaches_next zeros split start stop clears
  | goto name => exact h.reaches_goto found run
  | ifGoto name => exact h.reaches_ifGoto found run
  | call name args => exact h.reaches_call found run
  | ret => exact h.reaches_ret found run

end

end Program.Linked

end HackToolchain
