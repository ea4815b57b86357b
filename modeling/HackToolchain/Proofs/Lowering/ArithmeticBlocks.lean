import HackToolchain.Proofs.Lowering.OperatorBlocks

/-! The blocks of arithmetic and logic in machine code, at every place of the stack. They run
straight through, whatever session made them, and change one cell besides the stack pointer. -/

namespace HackToolchain

open StackMachine Lowering

/-! ### Values -/

namespace Operator

/-- The value of an operator on two words, unless it compares them. -/
def ofPair? : Operator → Option (Word → Word → Word)
  | add => some fun left right => left + right
  | sub => some fun left right => left - right
  | and => some fun left right => left &&& right
  | or => some fun left right => left ||| right
  | neg | not | eq | gt | lt => none

/-- The value of an operator on one word. -/
def ofWord? : Operator → Option (Word → Word)
  | neg => some fun top => -top
  | not => some fun top => ~~~top
  | add | sub | and | or | eq | gt | lt => none

end Operator

namespace Lowering

variable {op : Operator}

theorem shape_of_ofPair? {value : Word → Word → Word} (binary : op.ofPair? = some value)
    (number : Nat) :
    (∀ c, operation op ≠ .comparison c) ∧ Lines.size (operator op number) = 13 := by
  cases op with
  | add | sub | and | or => exact ⟨nofun, rfl⟩
  | neg | not | eq | gt | lt => cases binary

theorem shape_of_ofWord? {value : Word → Word} (unary : op.ofWord? = some value) (number : Nat) :
    (∀ c, operation op ≠ .comparison c) ∧ Lines.size (operator op number) = 9 := by
  cases op with
  | neg | not => exact ⟨nofun, rfl⟩
  | add | sub | and | or | eq | gt | lt => cases unary

end Lowering

namespace StackMachine

variable {before : Ram} {op : Operator}

/-- An operator on two words leaves its value in the cell of the lower one. -/
theorem operate_pair {value : Word → Word → Word} (binary : op.ofPair? = some value)
    (upper : cellOf (before.read sp - 1) ≠ sp) (lower : cellOf (before.read sp - 2) ≠ sp)
    {left right : Word} (atRight : before.read (cellOf (before.read sp - 1)) = right)
    (atLeft : before.read (cellOf (before.read sp - 2)) = left) :
    ∃ after, operate .inCells op before = some ((), after) ∧
      OnTop (before.read sp - 2) (value left right) false before after := by
  obtain ⟨mid, popped, popRight, popLeft, pointer, others⟩ := pop_pop upper lower
  rw [atRight] at popRight
  rw [atLeft] at popLeft
  obtain ⟨after, pushes, top⟩ : ∃ after, push .inCells (value left right) popped =
      some ((), after) ∧ OnTop (before.read sp - 2) (value left right) false before after :=
    onTop_push pointer lower fun cell register _ => others cell register
  have same : operate .inCells op = operate.binary .inCells value := by
    cases op with
    | add | sub | and | or =>
      cases binary
      rfl
    | neg | not | eq | gt | lt => cases binary
  refine ⟨after, ?_, top⟩
  rw [same, operate.binary, run_bind popRight, run_bind popLeft]
  exact pushes

/-- An operator on one word leaves its value in the cell of the word. -/
theorem operate_word {value : Word → Word} (unary : op.ofWord? = some value)
    (apart : cellOf (before.read sp - 1) ≠ sp) {word : Word}
    (there : before.read (cellOf (before.read sp - 1)) = word) :
    ∃ after, operate .inCells op before = some ((), after) ∧
      OnTop (before.read sp - 1) (value word) false before after := by
  have popped := pop_eq apart
  rw [there] at popped
  obtain ⟨mid, hMid⟩ : ∃ mid, mid = before.write sp (before.read sp - 1) := ⟨_, rfl⟩
  rw [← hMid] at popped
  have pointer : mid.read sp = before.read sp - 1 := by
    rw [hMid, Ram.read_write, if_pos rfl]
  have others : ∀ cell, cell ≠ sp → mid.read cell = before.read cell := by
    intro cell register
    rw [hMid, Ram.read_write, if_neg register.symm]
  obtain ⟨after, pushes, top⟩ : ∃ after, push .inCells (value word) mid = some ((), after) ∧
      OnTop (before.read sp - 1) (value word) false before after :=
    onTop_push pointer apart fun cell register _ => others cell register
  refine ⟨after, ?_, top⟩
  cases op with
  | neg | not =>
    cases unary
    rw [operate, run_bind popped]
    exact pushes
  | add | sub | and | or | eq | gt | lt => cases unary

end StackMachine

/-! ### Blocks of a session -/

namespace Program

variable {program : Program} {image : Image} {k number : Nat} {op : Operator} {block : Block}
  {cpu : Cpu}

/-- The block of an operator that does not compare is a run of the processor that does what the
operator does to memory. -/
theorem steps_operatorBlock (assembled : assemble program.text = .ok image)
    (there : program.blocks[k]? = some block)
    (made : (Command.operator op).block number = .ok block)
    (plain : ∀ c, operation op ≠ .comparison c)
    (here : cpu.StandsAt image (program.blockAddress k)) {ram : Ram}
    (operates : operate .inCells op cpu.ram = some ((), ram)) :
    program.blockAddress (k + 1) = program.blockAddress k + Lines.size (operator op number) ∧
    ∃ after, cpu.run (Lines.size (operator op number)) = (none, after) ∧
      after.StandsAt image (program.blockAddress (k + 1)) ∧ after.ram = ram := by
  obtain ⟨lines, reads, placed⟩ := exists_assembled assembled
  obtain ⟨front, body, back, split, readBody, start, stop⟩ := exists_split reads there
  obtain ⟨fragment, title⟩ := Command.block_eq_ok.mp made
  obtain rfl := read_wellSpelled
    (Command.wellSpelled_block (by simp [Command.Named, Command.names]) fragment title) readBody
  have own : operator op number = block.body := Except.ok.inj fragment
  rw [← own] at split stop
  obtain ⟨t, rfl, steps⟩ := (performs_operator plain).steps (s := ⟨cpu.a, cpu.d, cpu.ram⟩)
    (placed.loaded split) operates
  rw [stop, start, ← here.eq_cpu] at steps
  rw [start] at stop
  exact ⟨stop.symm, _, steps.run_eq, t.standsAt_cpu image _, rfl⟩

/-- The block of an operator that does not compare takes its operands off the stack and leaves the
value there. No cell has changed then but those of the value and of the stack pointer, so what was
popped stays where it is. -/
theorem run_arithmetic (assembled : assemble program.text = .ok image)
    (there : program.blocks[k]? = some block)
    (made : (Command.operator op).block number = .ok block)
    (here : cpu.StandsAt image (program.blockAddress k)) (apart : cellOf (cpu.sp - 1) ≠ 0) :
    (∀ value, op.ofPair? = some value → cellOf (cpu.sp - 2) ≠ 0 →
      program.blockAddress (k + 1) = program.blockAddress k + 13 ∧
      ∃ after, cpu.run 13 = (none, after) ∧
        after.StandsAt image (program.blockAddress (k + 1)) ∧ after.sp = cpu.sp - 1 ∧
        after.peek (cpu.sp - 2) = value (cpu.peek (cpu.sp - 2)) (cpu.peek (cpu.sp - 1)) ∧
        after.peek (cpu.sp - 1) = cpu.peek (cpu.sp - 1) ∧
        ∀ cell, cell ≠ 0 → cell ≠ cellOf (cpu.sp - 2) →
          after.ram.read cell = cpu.ram.read cell) ∧
    ∀ value, op.ofWord? = some value →
      program.blockAddress (k + 1) = program.blockAddress k + 9 ∧
      ∃ after, cpu.run 9 = (none, after) ∧
        after.StandsAt image (program.blockAddress (k + 1)) ∧ after.sp = cpu.sp ∧
        after.peek (cpu.sp - 1) = value (cpu.peek (cpu.sp - 1)) ∧
        ∀ cell, cell ≠ 0 → cell ≠ cellOf (cpu.sp - 1) →
          after.ram.read cell = cpu.ram.read cell := by
  have upper : cellOf (cpu.ram.read sp - 1) ≠ sp := apart
  constructor
  · intro value binary lower
    obtain ⟨ram, operates, top⟩ := operate_pair binary upper lower rfl rfl
    obtain ⟨plain, size⟩ := shape_of_ofPair? binary number
    have block := steps_operatorBlock assembled there made plain here operates
    rw [size] at block
    obtain ⟨next, after, run, goesOn, rfl⟩ := block
    have down : cpu.sp - 2 + 1 = cpu.sp - 1 := by bv_omega
    have others : ∀ cell, cell ≠ 0 → cell ≠ cellOf (cpu.sp - 2) →
        after.ram.read cell = cpu.ram.read cell :=
      fun cell register free => top.others cell register free nofun
    have differ : cellOf (cpu.sp - 1) ≠ cellOf (cpu.sp - 2) := by
      simp only [cellOf]
      bv_omega
    exact ⟨next, after, run, goesOn, top.pointer.trans down, top.top, others _ apart differ, others⟩
  · intro value unary
    obtain ⟨ram, operates, top⟩ := operate_word unary upper rfl
    obtain ⟨plain, size⟩ := shape_of_ofWord? unary number
    have block := steps_operatorBlock assembled there made plain here operates
    rw [size] at block
    obtain ⟨next, after, run, goesOn, rfl⟩ := block
    have back : cpu.sp - 1 + 1 = cpu.sp := by bv_omega
    exact ⟨next, after, run, goesOn, top.pointer.trans back, top.top,
      fun cell register free => top.others cell register free nofun⟩

/-- A difference and its complement. -/
def differenceCommands : List Command := [.operator .sub, .operator .not]

/-- The stack pointer wraps to the end of memory, where the stack is: 5 - 7 is left in cell 32766,
and then its complement. -/
theorem run_arithmetic_wrapped :
    ∃ program image, ((Session.program differenceCommands ⟨false, true⟩).run.run 0).1 =
        .ok program ∧ assemble program.text = .ok image ∧ ∃ cpu : Cpu,
      cpu.StandsAt image (program.blockAddress 0) ∧ cpu.sp = 0 ∧
      cpu.peek 0x7FFE = 5 ∧ cpu.peek 0x7FFF = 7 ∧ ∃ mid after, cpu.run 13 = (none, mid) ∧
        mid.sp = 0xFFFF ∧ mid.peek 0x7FFE = -2 ∧ mid.peek 0x7FFF = 7 ∧
        mid.run 9 = (none, after) ∧ after.StandsAt image (program.blockAddress 2) ∧
        after.sp = 0xFFFF ∧ after.peek 0x7FFE = 1 := by
  obtain ⟨program, translated⟩ : ∃ program,
      Program.ofCommands differenceCommands ⟨false, true⟩ = .ok program := ⟨_, rfl⟩
  obtain ⟨image, assembled⟩ : ∃ image, assemble program.text = .ok image := by
    refine exists_assemble_of_few translated (by decide) (by decide) (by decide) (by decide) ?_ ?_
    all_goals
      cases translated
      decide
  obtain ⟨cpu, here, memory⟩ := Cpu.exists_standsAt image (program.blockAddress 0)
    (((Ram.zeroed.setWord 0 0).setWord 32766 5).setWord 32767 7)
  have pointer : cpu.sp = 0 := by
    show cpu.ram.word 0 = 0
    rw [memory]
    simp (disch := omega) only [Ram.word_setWord_ne, Ram.word_setWord_same]
  have left : cpu.peek 0x7FFE = 5 := by
    show cpu.ram.word 32766 = 5
    rw [memory]
    simp (disch := omega) only [Ram.word_setWord_ne, Ram.word_setWord_same]
  have right : cpu.peek 0x7FFF = 7 := by
    show cpu.ram.word 32767 = 7
    rw [memory, Ram.word_setWord_same]
  have lower : ∀ c : Cpu, c.peek (0 - 2) = c.peek 0x7FFE := fun c =>
    congrArg c.ram.read (by decide)
  have upper : ∀ c : Cpu, c.peek (0 - 1) = c.peek 0x7FFF := fun c =>
    congrArg c.ram.read (by decide)
  obtain ⟨number, block, there, fragment, title⟩ := exists_block translated (i := 0) rfl
  have made := Command.block_eq_ok.mpr ⟨fragment, title⟩
  obtain ⟨subtracts, -⟩ :=
    run_arithmetic assembled there made here (by rw [pointer]; decide)
  obtain ⟨-, mid, run, goesOn, moved, difference, kept, -⟩ :=
    subtracts _ rfl (by rw [pointer]; decide)
  rw [pointer] at moved difference kept
  rw [lower, lower, upper, left, right] at difference
  rw [upper, upper, right] at kept
  obtain ⟨number, block, there, fragment, title⟩ := exists_block translated (i := 1) rfl
  have made := Command.block_eq_ok.mpr ⟨fragment, title⟩
  obtain ⟨-, complements⟩ :=
    run_arithmetic assembled there made goesOn (by rw [moved]; decide)
  obtain ⟨-, after, further, stops, stays, complement, -⟩ := complements _ rfl
  have next : ∀ c : Cpu, c.peek (0 - 1 - 1) = c.peek 0x7FFE := fun c =>
    congrArg c.ram.read (by decide)
  rw [moved] at stays complement
  rw [next, next, difference] at complement
  exact ⟨program, image, translated, assembled, cpu, here, pointer, left, right, mid, after, run,
    moved, difference, kept, further, stops, stays, complement⟩

end Program

end HackToolchain
