import HackToolchain.Proofs.Lowering.Acceptance
import HackToolchain.Proofs.Lowering.Calls
import HackToolchain.Proofs.Lowering.FrameBlocks
import HackToolchain.Proofs.StackMachine.Frames

/-! The blocks of calls and returns in the machine code of a program. What a return makes of the
frame depends on nothing that happened between, as long as the frame is there and the registers
point to it. -/

namespace HackToolchain

open StackMachine

/-- A processor that has an image loaded, is not halted, and stands at an address of it. -/
structure Cpu.StandsAt (cpu : Cpu) (image : Image) (pc : Nat) : Prop where
  rom : cpu.rom = image.words
  running : cpu.halted = false
  pc : cpu.pc = pc

theorem exists_assembled {source : String} {image : Image} (h : assemble source = .ok image) :
    ∃ lines, readSource source = .ok lines ∧ Lines.Assembled lines image.words := by
  obtain ⟨lines, reads, placeable, words⟩ := assemble_eq_ok_iff.mp h
  exact ⟨lines, reads, placeable, words⟩

theorem Cpu.StandsAt.eq_cpu {cpu : Cpu} {image : Image} {pc : Nat} (h : cpu.StandsAt image pc) :
    cpu = (Store.mk cpu.a cpu.d cpu.ram).cpu image.words pc := by
  obtain ⟨rom, running, rfl⟩ := h
  rw [← rom]
  exact Cpu.eq_cpu running

theorem Store.standsAt_cpu (s : Store) (image : Image) (pc : Nat) :
    (s.cpu image.words pc).StandsAt image pc := ⟨rfl, rfl, rfl⟩

/-- A processor can stand anywhere with any memory. -/
theorem Cpu.exists_standsAt (image : Image) (pc : Nat) (ram : Ram) :
    ∃ cpu : Cpu, cpu.StandsAt image pc ∧ cpu.ram = ram :=
  ⟨_, (Store.mk 0 0 ram).standsAt_cpu image pc, rfl⟩

theorem word_of_toNat {word : Word} {value : Nat} (h : word.toNat = value) :
    word = BitVec.ofNat 16 value := by
  rw [← h, BitVec.ofNat_toNat, BitVec.setWidth_eq]

namespace Program

variable {commands : List Command} {options : Options} {program : Program} {lines : List Line}
  {i n : Nat} {cpu : Cpu} {image : Image}

/-- The lines of a call of a program, with the name spelled as it is read. -/
theorem split_call (translated : ((Session.program commands options).run.run n).1 = .ok program)
    (reads : readSource program.text = .ok lines) {name : String} {args : UInt16}
    (found : commands[i]? = some (.call name args)) :
    ∃ front back number, isSymbol (Lowering.spelled name).toList ∧
      lines = front ++ Lowering.call (Lowering.spelled name) args.toNat number ++ back ∧
      Lines.size front = program.commandAddress options i ∧
      Lines.size front + 47 = program.commandAddress options (i + 1) := by
  obtain ⟨number, block, there, fragment, title⟩ := exists_block translated found
  obtain ⟨front, body, back, split, readBody, start, stop⟩ := exists_split reads there
  have titled : '\n' ∉ name.toList → '\n' ∉ block.title.toList := by
    intro single
    rw [title]
    apply feed_not_mem_intercalate
    simp only [Command.words, List.forall_mem_cons]
    exact ⟨by decide, single, feed_not_mem_toString _, by simp⟩
  obtain ⟨isName, rfl⟩ := read_call (Except.ok.inj fragment).symm titled readBody
  exact ⟨front, back, number, isName, split, start, stop⟩

theorem split_ret (translated : ((Session.program commands options).run.run n).1 = .ok program)
    (reads : readSource program.text = .ok lines) (found : commands[i]? = some .ret) :
    ∃ front back, lines = front ++ Lowering.ret ++ back ∧
      Lines.size front = program.commandAddress options i := by
  obtain ⟨number, front, body, back, fragment, split, start, -⟩ :=
    split_command translated reads found (by decide)
  cases fragment
  exact ⟨front, back, split, start⟩

/-! ### Runs through the blocks -/

/-- The run of a call through its block, which ends in a jump to the function. -/
theorem steps_call_block
    (translated : ((Session.program commands options).run.run n).1 = .ok program)
    (reads : readSource program.text = .ok lines) (placed : Lines.Assembled lines image.words)
    {name : String} {args : UInt16} (found : commands[i]? = some (.call name args))
    (here : cpu.StandsAt image (program.commandAddress options i)) {s : Nat}
    (stack : (cpu.ram.word 0).toNat = s) (low : 16 ≤ s) (high : s ≤ 32762) :
    program.commandAddress options (i + 1) = program.commandAddress options i + 47 ∧
    program.commandAddress options (i + 1) < 32768 ∧ isSymbol (Lowering.spelled name).toList ∧
    Lowering.spelled name ∈ Lines.references lines ∧
    ∃ t : Store, Entered s args.toNat (BitVec.ofNat 16 (program.commandAddress options (i + 1)))
        cpu.ram t.ram ∧
      Cpu.Steps 47 cpu (t.jumped image.words (Lines.address lines (Lowering.spelled name))
        (Lines.address lines (Lowering.spelled name) = program.commandAddress options i + 45)) := by
  obtain ⟨front, back, number, isName, split, start, next⟩ := split_call translated reads found
  have target : Lines.address lines (Lowering.returnLabel (Lowering.spelled name) number) =
      Lines.size front + 47 := Lowering.address_returnLabel placed split
  have small : Lines.size front + 47 ≤ Platform.maxAddress := by
    obtain ⟨⟨word, encoded, -⟩, -⟩ := placed.loaded split
    rw [← target]
    exact (encodeAddress_eq_ok.mp encoded).1
  have used : Lowering.spelled name ∈ Lines.references lines := by
    rw [Lines.mem_references, split]
    simp [Lowering.call, Lowering.symbol]
  obtain ⟨ram, enters, entered⟩ := enter_frame args.toNat
    (BitVec.ofNat 16 (Lines.size front + 47)) (word_of_toNat stack) low (by omega)
  obtain ⟨t, rfl, steps⟩ := Lowering.steps_call (s := ⟨cpu.a, cpu.d, cpu.ram⟩) placed split enters
  rw [start, ← here.eq_cpu] at steps
  rw [← next, start]
  rw [start] at small entered
  exact ⟨rfl, Nat.lt_succ_of_le small, isName, used, t, entered, steps⟩

/-- A call jumps to the function and leaves the return address and the registers on the stack. The
block of the next command is where it returns to. -/
theorem run_call (translated : ((Session.program commands options).run.run n).1 = .ok program)
    (assembled : assemble program.text = .ok image) {name : String} {args : UInt16}
    (found : commands[i]? = some (.call name args))
    (here : cpu.StandsAt image (program.commandAddress options i)) {s : Nat}
    (stack : (cpu.ram.word 0).toNat = s) (low : 16 ≤ s) (high : s ≤ 32762) :
    program.commandAddress options (i + 1) = program.commandAddress options i + 47 ∧
    program.commandAddress options (i + 1) < 32768 ∧
    ∃ entered, cpu.run 47 = (none, entered) ∧
      entered.pc = SourceText.address (SourceText.lines program.text) (Lowering.spelled name) ∧
      entered.ram.word s = BitVec.ofNat 16 (program.commandAddress options (i + 1)) ∧
      ∀ k < 4, entered.ram.word (s + 1 + k) = cpu.ram.word (k + 1) := by
  obtain ⟨lines, reads, placed⟩ := exists_assembled assembled
  obtain ⟨next, small, isName, used, t, entered, steps⟩ :=
    steps_call_block translated reads placed found here stack low high
  exact ⟨next, small, _, steps.run_eq, (address_of_readSource reads used isName).symm,
    entered.back, entered.saved⟩

/-- The processor is inside of the block of a return for 43 steps. -/
theorem run_ret_inside (translated : ((Session.program commands options).run.run n).1 = .ok program)
    (assembled : assemble program.text = .ok image) (found : commands[i]? = some .ret)
    (here : cpu.StandsAt image (program.commandAddress options i)) :
    ∀ k < 43, ∃ inside, cpu.run k = (none, inside) ∧
      inside.StandsAt image (program.commandAddress options i + k) := by
  intro k hk
  obtain ⟨lines, reads, placed⟩ := exists_assembled assembled
  obtain ⟨front, back, split, start⟩ := split_ret translated reads found
  have loaded := placed.loaded split
  rw [← List.take_append_drop 42 (Lines.code Lowering.ret), loaded_append] at loaded
  obtain ⟨t, steps⟩ := steps_into (s := ⟨cpu.a, cpu.d, cpu.ram⟩) loaded.1 (by decide)
    (show k ≤ 42 by omega)
  rw [start, ← here.eq_cpu] at steps
  exact ⟨_, steps.run_eq, t.standsAt_cpu image _⟩

/-- A return goes to the address in the frame. -/
theorem run_ret (translated : ((Session.program commands options).run.run n).1 = .ok program)
    (assembled : assemble program.text = .ok image) (found : commands[i]? = some .ret)
    (here : cpu.StandsAt image (program.commandAddress options i)) {s a t back : Nat}
    (frame : (cpu.ram.word 1).toNat = s + 5) (first : (cpu.ram.word 2).toNat = a)
    (stack : (cpu.ram.word 0).toNat = t + 1) (low : 16 ≤ a) (below : a ≤ s) (above : s + 5 ≤ t)
    (high : t < 32768) (saved : cpu.ram.word s = BitVec.ofNat 16 back) (small : back < 32768) :
    ∃ after, cpu.run 43 = (none, after) ∧ after.StandsAt image back ∧
      (after.ram.word 0).toNat = a + 1 ∧ after.ram.word a = cpu.ram.word t ∧
      (∀ k < 4, after.ram.word (k + 1) = cpu.ram.word (s + 1 + k)) ∧
      ∀ k < 32768, k ∉ [0, 1, 2, 3, 4, 13, 14, a] → after.ram.word k = cpu.ram.word k := by
  obtain ⟨lines, reads, placed⟩ := exists_assembled assembled
  obtain ⟨front, rest, split, start⟩ := split_ret translated reads found
  obtain ⟨ram, leaves, pointer, result, registers, others⟩ := leave_frame (word_of_toNat frame)
    (word_of_toNat first) (word_of_toNat stack) low below above high
  obtain ⟨u, rfl, steps⟩ := Lowering.steps_ret (s := ⟨cpu.a, cpu.d, cpu.ram⟩) placed split leaves
  have target : (BitVec.ofNat 16 back).toNat = back := by
    rw [BitVec.toNat_ofNat]
    omega
  have free : ¬(back = Lines.size front + 41 ∧ BitVec.ofNat 16 back = 0xFC20#16) := by
    rintro ⟨-, same⟩
    have large : back = 64544 := target.symm.trans (congrArg BitVec.toNat same)
    omega
  rw [saved, target, decide_eq_false free, start, ← here.eq_cpu] at steps
  refine ⟨_, steps.run_eq, u.standsAt_cpu image back, ?_, result, registers, others⟩
  show (u.ram.word 0).toNat = _
  rw [pointer, BitVec.toNat_ofNat]
  omega

/-- A return undoes the call that made its frame, whatever happened between: it runs through its
block once, goes on after the call, and leaves the result in place of the arguments. -/
theorem ret_undoes_call
    (translated : ((Session.program commands options).run.run n).1 = .ok program)
    (assembled : assemble program.text = .ok image) {i j : Nat} {name : String} {args : UInt16}
    (calls : commands[i]? = some (.call name args)) (returns : commands[j]? = some .ret)
    {caller callee : Cpu} {s t : Nat}
    (atCall : caller.StandsAt image (program.commandAddress options i))
    (stack : (caller.ram.word 0).toNat = s) (low : 256 ≤ s) (high : s ≤ 32762)
    (room : args.toNat + 16 ≤ s)
    (atRet : callee.StandsAt image (program.commandAddress options j))
    (locals : (callee.ram.word 1).toNat = s + 5)
    (arguments : (callee.ram.word 2).toNat = s - args.toNat)
    (frame : ∀ k < 5, callee.ram.word (s + k) = (caller.run 47).2.ram.word (s + k))
    (top : (callee.ram.word 0).toNat = t) (above : s + 6 ≤ t) (below : t ≤ 32768) :
    program.commandAddress options (i + 1) = program.commandAddress options i + 47 ∧
    (∃ entered, caller.run 47 = (none, entered) ∧
      entered.pc = SourceText.address (SourceText.lines program.text) (Lowering.spelled name)) ∧
    (∀ k < 43, ∃ inside, callee.run k = (none, inside) ∧
      inside.StandsAt image (program.commandAddress options j + k)) ∧
    ∃ after, callee.run 43 = (none, after) ∧
      after.StandsAt image (program.commandAddress options i + 47) ∧
      (after.ram.word 0).toNat = s - args.toNat + 1 ∧
      after.ram.word (s - args.toNat) = callee.ram.word (t - 1) ∧
      (∀ k < 4, after.ram.word (k + 1) = caller.ram.word (k + 1)) ∧
      ∀ k < 32768, k ∉ [0, 1, 2, 3, 4, 13, 14, s - args.toNat] →
        after.ram.word k = callee.ram.word k := by
  obtain ⟨next, small, entered, run, target, saved, registers⟩ :=
    run_call translated assembled calls atCall stack (by omega) high
  rw [run] at frame
  rw [next] at saved small
  have back := (frame 0 (by omega)).trans saved
  obtain ⟨after, finish, goesOn, pointer, result, restored, others⟩ :=
    run_ret translated assembled returns atRet locals arguments (show _ = t - 1 + 1 by omega)
      (by omega) (by omega) (by omega) (by omega) back small
  refine ⟨next, ⟨entered, run, target⟩, run_ret_inside translated assembled returns atRet, after,
    finish, goesOn, pointer, result, fun k hk => ?_, others⟩
  have slot := frame (k + 1) (by omega)
  rw [← Nat.add_assoc, Nat.add_right_comm] at slot
  rw [restored k hk, slot, registers k hk]

/-- A call without arguments, where the result takes the place of the return address. -/
def callAndReturn : List Command := [.call "Main.run" 0, .function "Main.run" 0, .ret]

theorem ret_undoes_call_withoutArguments :
    ∃ program image, Program.ofCommands callAndReturn ⟨false, false⟩ = .ok program ∧
      assemble program.text = .ok image ∧ ∃ caller callee : Cpu,
        caller.StandsAt image (program.commandAddress ⟨false, false⟩ 0) ∧
        callee.StandsAt image (program.commandAddress ⟨false, false⟩ 2) ∧
        callee.ram.word 261 = 7 ∧ ∃ after, callee.run 43 = (none, after) ∧
          after.StandsAt image (program.commandAddress ⟨false, false⟩ 0 + 47) ∧
          after.ram.word 256 = 7 := by
  obtain ⟨program, translated⟩ :
      ∃ program, Program.ofCommands callAndReturn ⟨false, false⟩ = .ok program := ⟨_, rfl⟩
  have few : (program.blocks.flatMap Block.instructions).length ≤ 32767 := by
    cases translated
    decide
  have fits : Fits callAndReturn ⟨false, false⟩ program := by
    refine .of_few few (by decide) (by decide) (by decide) ?_
    cases translated
    decide
  obtain ⟨image, assembled⟩ := exists_assemble_of_fits translated (by decide) fits
  -- The callee keeps the frame, has no local variables, and pushes one word.
  obtain ⟨caller, hCaller⟩ : ∃ caller, caller = (Store.mk 0 0 (Ram.zeroed.setWord 0 256)).cpu
      image.words (program.commandAddress ⟨false, false⟩ 0) := ⟨_, rfl⟩
  obtain ⟨ram, hRam⟩ : ∃ ram, ram = ((((caller.run 47).2.ram.setWord 261 7).setWord 0 262).setWord 1
      261).setWord 2 256 := ⟨_, rfl⟩
  obtain ⟨callee, hCallee⟩ : ∃ callee, callee = (Store.mk 0 0 ram).cpu image.words
      (program.commandAddress ⟨false, false⟩ 2) := ⟨_, rfl⟩
  have memory : callee.ram = ram := hCallee ▸ rfl
  have atCall := hCaller ▸ (Store.mk 0 0 (Ram.zeroed.setWord 0 256)).standsAt_cpu image
    (program.commandAddress ⟨false, false⟩ 0)
  have atRet := hCallee ▸ (Store.mk 0 0 ram).standsAt_cpu image
    (program.commandAddress ⟨false, false⟩ 2)
  have argument : callee.ram.word 261 = 7 := by
    rw [memory, hRam]
    simp (disch := omega) only [Ram.word_setWord_ne, Ram.word_setWord_same]
  have result := ret_undoes_call translated assembled (i := 0) (j := 2) rfl rfl atCall
    (s := 256) (t := 262)
    (by
      rw [hCaller]
      exact congrArg BitVec.toNat Ram.word_setWord_same)
    (by omega) (by omega) (by decide) atRet
    (by
      rw [memory, hRam]
      simp (disch := omega) only [Ram.word_setWord_ne, Ram.word_setWord_same]
      rfl)
    (by
      rw [memory, hRam, Ram.word_setWord_same]
      rfl)
    (by
      intro k hk
      rw [memory, hRam]
      simp (disch := omega) only [Ram.word_setWord_ne])
    (by
      rw [memory, hRam]
      simp (disch := omega) only [Ram.word_setWord_ne, Ram.word_setWord_same]
      rfl)
    (by omega) (by omega)
  obtain ⟨-, -, -, after, run, goesOn, -, top, -⟩ := result
  exact ⟨program, image, translated, assembled, caller, callee, atCall, atRet, argument, after, run,
    goesOn, top.trans argument⟩

end Program

end HackToolchain
