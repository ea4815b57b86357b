import HackToolchain.Proofs.Lowering.Linking
import HackToolchain.Proofs.Lowering.Returns
import HackToolchain.Proofs.Lowering.Stepwise
import HackToolchain.Proofs.StackMachine.Operands

/-! The blocks of accesses in the machine code of a program. An access runs straight through its
block, wherever its operand and the stack are; only the cells that it works with are kept apart. -/

namespace HackToolchain

open StackMachine Lowering

variable {commands : List Command} {options : Options} {program : Program} {image : Image}
  {lines : List Line} {i n : Nat} {op : StackOp} {segment : Segment} {index : Int32} {file : String}
  {cpu : Cpu}

/-- The index of an access that is translated is in its segment. -/
theorem Command.acceptable_of_fragment {c : Command} {number : Nat} {body : List Line}
    (fragment : c.fragment number = .ok body) : c.Acceptable := by
  refine acceptable_iff.mpr fun defect rejected => ?_
  have failed : c.block number = .error defect := block_eq_error.mpr rejected
  rw [block, fragment] at failed
  cases failed

/-- The address instructions of assembled lines load words. -/
theorem Lines.Assembled.literals_le {lines body : List Line} {rom : Array Word}
    (h : Lines.Assembled lines rom) (inside : body ⊆ lines) :
    ∀ value ∈ Lines.literals body, value ≤ Platform.maxAddress := by
  intro value among
  obtain ⟨word, encoded⟩ := h.encodes inside _ (Lines.mem_code.mpr (Lines.mem_literals.mp among))
  exact (encodeAddress_eq_ok.mp encoded).1

namespace Program

/-- The block of an access is a run of the processor that does what the access does to memory. -/
theorem steps_access (translated : ((Session.program commands options).run.run n).1 = .ok program)
    (assembled : assemble program.text = .ok image)
    (found : commands[i]? = some (.access op segment index file))
    (named : segment = .staticVar → isSymbol file.toList)
    (here : cpu.StandsAt image (program.commandAddress options i)) :
    (Command.access op segment index file).Acceptable ∧
      (segment ≠ .staticVar → index.toInt ≤ 32767) ∧
      ∀ ram, access .inCells (program.placement options).statics op segment index.toInt.toNat file
          cpu.ram = some ((), ram) →
        ∃ after, cpu.run (program.commandAddress options (i + 1) -
            program.commandAddress options i) = (none, after) ∧
          after.StandsAt image (program.commandAddress options (i + 1)) ∧ after.ram = ram := by
  obtain ⟨lines, reads, placed⟩ := exists_assembled assembled
  obtain ⟨number, front, body, back, fragment, split, start, stop⟩ :=
    split_command translated reads found (by
      intro name own
      simp only [Command.names] at own
      split at own
      · next static => exact List.mem_singleton.mp own ▸ named static
      · cases own)
  have acceptable := Command.acceptable_of_fragment fragment
  refine ⟨acceptable, fun cell => ?_, fun ram accesses => ?_⟩
  · obtain ⟨-, temp, pointer, pushed⟩ := acceptable
    have small := (literals_access fragment).mp (placed.literals_le (by simp [split]))
    cases segment with
    | argument | localVar | this | that => exact small (.inr (by decide))
    | temp => exact (temp rfl).trans (by decide)
    | pointer => exact (pointer rfl).trans (by decide)
    | staticVar => exact absurd rfl cell
    | constant =>
      refine small (.inl ⟨rfl, ?_⟩)
      cases op with
      | push => rfl
      | pop => exact absurd ⟨rfl, rfl⟩ pushed
  · rw [access_eq translated reads found named] at accesses
    obtain ⟨t, rfl, steps⟩ := (performs_access fragment).steps (s := ⟨cpu.a, cpu.d, cpu.ram⟩)
      (placed.loaded split) accesses
    rw [stop, start, ← here.eq_cpu] at steps
    have size : program.commandAddress options (i + 1) - program.commandAddress options i =
        Lines.size body := by omega
    exact ⟨_, size ▸ steps.run_eq, t.standsAt_cpu image _, rfl⟩

/-- The address of a temp cell is below the scratch register. -/
theorem operandCell_ne_addressScratch {statics : String → Nat → Cell} {ram : Ram}
    (acceptable : (Command.access op segment index file).Acceptable)
    (indirect : segment.isIndirect →
      operandCell statics ram segment index.toInt.toNat file ≠ some addressScratch)
    (keeps : segment.keepsAddress) :
    operandCell statics ram segment index.toInt.toNat file ≠ some addressScratch := by
  cases segment with
  | argument | localVar | this | that => exact indirect rfl
  | temp =>
    have small := acceptable.2.1 rfl
    intro same
    have address := congrArg BitVec.toNat (Option.some.inj same)
    rw [BitVec.toNat_ofNat, Platform.tempBase] at address
    change _ = 13 at address
    omega
  | pointer | constant | staticVar => cases keeps

/-- A push puts the word of its operand on the stack, and a pop stores the top of the stack in the
cell of its operand, which is found before the stack pointer moves. Only the stack pointer, the
target and the scratch register of the segments that use it change. -/
theorem run_access (translated : ((Session.program commands options).run.run n).1 = .ok program)
    (assembled : assemble program.text = .ok image)
    (found : commands[i]? = some (.access op segment index file))
    (named : segment = .staticVar → isSymbol file.toList)
    (here : cpu.StandsAt image (program.commandAddress options i)) {value : Word}
    {reached : Option Cell}
    (hValue : operand (program.placement options).statics cpu.ram segment index.toInt.toNat file =
      value)
    (hReached : operandCell (program.placement options).statics cpu.ram segment
      index.toInt.toNat file = reached) :
    0 ≤ index.toInt ∧ (segment ≠ .staticVar → index.toInt ≤ 32767) ∧
    (op = .push → cellOf cpu.sp ≠ 0 → (segment.isIndirect → reached ≠ some 13) →
      ∃ after, cpu.run (program.commandAddress options (i + 1) -
          program.commandAddress options i) = (none, after) ∧
        after.StandsAt image (program.commandAddress options (i + 1)) ∧
        OnTop cpu.sp value segment.keepsAddress cpu.ram after.ram) ∧
    (op = .pop → cellOf (cpu.sp - 1) ≠ 0 → (segment.keepsAddress → cellOf (cpu.sp - 1) ≠ 13) →
      ∃ cell after, reached = some cell ∧ cpu.run (program.commandAddress options (i + 1) -
          program.commandAddress options i) = (none, after) ∧
        after.StandsAt image (program.commandAddress options (i + 1)) ∧
        Stored (cpu.sp - 1) cell (cpu.peek (cpu.sp - 1)) segment.keepsAddress cpu.ram
          after.ram) := by
  obtain ⟨acceptable, small, runs⟩ := steps_access translated assembled found named here
  subst hValue hReached
  refine ⟨acceptable.1, small, ?_, ?_⟩
  · rintro rfl apart free
    have clear : cellOf (cpu.ram.read sp) ≠ sp := apart
    obtain ⟨ram, pushes, top⟩ := access_push clear
      (operandCell_ne_addressScratch acceptable free)
    obtain ⟨after, run, goesOn, rfl⟩ := runs ram pushes
    exact ⟨after, run, goesOn, top⟩
  · rintro rfl apart free
    obtain ⟨cell, operand⟩ : ∃ cell, operandCell (program.placement options).statics cpu.ram
        segment index.toInt.toNat file = some cell :=
      exists_operandCell fun constant => acceptable.2.2.2 ⟨rfl, constant⟩
    obtain ⟨ram, pops, stored⟩ := access_pop operand apart free
    obtain ⟨after, run, goesOn, rfl⟩ := runs ram pops
    exact ⟨cell, after, operand, run, goesOn, stored⟩

/-- A pop through a register. -/
def popThroughThat : List Command := [.access .pop .that 0 "Main"]

/-- The register points to itself, and holds the popped word in the end. -/
theorem run_access_ownBase :
    ∃ program image, Program.ofCommands popThroughThat ⟨false, false⟩ = .ok program ∧
      assemble program.text = .ok image ∧ ∃ cpu : Cpu,
        cpu.StandsAt image (program.commandAddress ⟨false, false⟩ 0) ∧ cpu.sp = 257 ∧
        cpu.peek 256 = 9 ∧ cpu.peek 4 = 4 ∧
        ∃ after, cpu.run (program.commandAddress ⟨false, false⟩ 1 -
            program.commandAddress ⟨false, false⟩ 0) = (none, after) ∧
          after.StandsAt image (program.commandAddress ⟨false, false⟩ 1) ∧ after.sp = 256 ∧
          after.peek 4 = 9 := by
  obtain ⟨program, translated⟩ :
      ∃ program, Program.ofCommands popThroughThat ⟨false, false⟩ = .ok program := ⟨_, rfl⟩
  obtain ⟨image, assembled⟩ : ∃ image, assemble program.text = .ok image := by
    refine exists_assemble_of_few translated (by decide) (by decide) (by decide) (by decide) ?_ ?_
    all_goals
      cases translated
      decide
  obtain ⟨cpu, here, memory⟩ := Cpu.exists_standsAt image
    (program.commandAddress ⟨false, false⟩ 0)
    (((Ram.zeroed.setWord 0 257).setWord 256 9).setWord 4 4)
  have pointer : cpu.sp = 257 := by
    show cpu.ram.word 0 = 257
    rw [memory]
    simp (disch := omega) only [Ram.word_setWord_ne, Ram.word_setWord_same]
  have top : cpu.peek 256 = 9 := by
    show cpu.ram.word 256 = 9
    rw [memory]
    simp (disch := omega) only [Ram.word_setWord_ne, Ram.word_setWord_same]
  have base : cpu.ram.read that = 4 := by
    show cpu.ram.word 4 = 4
    rw [memory, Ram.word_setWord_same]
  have reached : operandCell (program.placement ⟨false, false⟩).statics cpu.ram .that 0 "Main" =
      some 4 := by
    rw [operandCell, base]
    rfl
  obtain ⟨-, -, -, pops⟩ := run_access translated assembled (i := 0) rfl nofun here rfl reached
  obtain ⟨cell, after, same, run, goesOn, stored⟩ :=
    pops rfl (by rw [pointer]; decide) fun _ => by rw [pointer]; decide
  cases same
  have popped : cpu.peek (cpu.sp - 1) = 9 := by
    rw [pointer]
    exact top
  have below : cpu.sp - 1 = 256 := by
    rw [pointer]
    rfl
  exact ⟨program, image, translated, assembled, cpu, here, pointer, top, base, after, run, goesOn,
    (stored.pointer (by decide)).trans below, stored.stored.trans popped⟩

end Program

end HackToolchain
