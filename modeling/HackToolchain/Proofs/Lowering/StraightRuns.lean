import HackToolchain.Proofs.Lowering.Simulation
import HackToolchain.Proofs.Lowering.StraightAssembly
import HackToolchain.Trial

/-! Trials of programs without labels, jumps and functions: the processor comes to each instruction
once at most and halts with the memories of the abstract machine in their cells. -/

namespace HackToolchain

open StackMachine

theorem Command.StraightLine.two_le_size {c : Command} {number : Nat} {body : Lowering.Fragment}
    (h : c.StraightLine) (fragment : c.fragment number = .ok body) : 2 ≤ Lines.size body := by
  cases c with
  | operator op =>
    cases fragment
    cases op <;> exact Nat.le_add_left 2 _
  | access op segment index file =>
    obtain ⟨location, found, place⟩ := h.find
    obtain ⟨other, same, transfer⟩ := Lowering.access_eq_ok.mp fragment
    cases same.symm.trans found
    cases op with
    | push =>
      subst transfer
      cases location <;> exact Nat.le_add_left 2 _
    | pop =>
      cases location with
      | constant value => cases transfer
      | named name | indirect base offset | temp offset =>
        cases transfer
        exact Nat.le_add_left 2 _
  | label | goto | ifGoto | function | call | ret => cases h

namespace Program.Linked

variable {commands : List Command} {options : Options} {program : Program} {lines : List Line}
  {rom : Array Word} {i : Nat} {c : Command}

/-- The block of a command takes no more steps than it has instructions. -/
theorem steps_straightLine (h : Linked commands options program lines rom)
    (found : commands[i]? = some c) (straight : c.StraightLine) {s : Store} {ram : Ram}
    (run : execute .inCells (program.placement options) commands i c s.ram =
      some (i + 1, ram)) :
    ∃ n, ∃ t : Store,
      program.commandAddress options i + n ≤ program.commandAddress options (i + 1) ∧
      t.ram = ram ∧ Cpu.Steps n (s.cpu rom (program.commandAddress options i))
        (t.cpu rom (program.commandAddress options (i + 1))) := by
  obtain ⟨number, front, body, back, fragment, split, start, stop⟩ := h.split found
  cases c with
  | operator op =>
    cases fragment
    obtain ⟨_, after, operates, last⟩ := bind_eq_some.mp run
    cases last
    obtain ⟨n, few, t, same, steps⟩ := Lowering.steps_operator h.assembled split operates
    rw [stop, start] at steps
    exact ⟨n, t, by omega, same, steps⟩
  | access op segment index file =>
    obtain ⟨_, after, accesses, last⟩ := bind_eq_some.mp run
    cases last
    rw [h.access_eq found] at accesses
    obtain ⟨t, same, steps⟩ :=
      (Lowering.performs_access fragment).steps (h.assembled.loaded split) accesses
    rw [stop, start] at steps
    exact ⟨Lines.size body, t, by omega, same, steps⟩
  | label | goto | ifGoto | function | call | ret => cases straight

theorem commandAddress_add_two_le (h : Linked commands options program lines rom)
    (found : commands[i]? = some c) (straight : c.StraightLine) :
    program.commandAddress options i + 2 ≤ program.commandAddress options (i + 1) := by
  obtain ⟨number, front, body, back, fragment, split, start, stop⟩ := h.split found
  have two := straight.two_le_size fragment
  omega

theorem commandAddress_le_size (h : Linked commands {} program lines rom)
    (inside : i ≤ commands.length) : program.commandAddress {} i ≤ Lines.size lines := by
  obtain ⟨front, number, back, split, start⟩ := h.endLoop_split rfl
  have last : program.commandAddress {} i ≤ program.commandAddress {} commands.length :=
    commandAddress_mono inside
  rw [split, Lines.size_append, Lines.size_append]
  omega

/-- After any number of commands the processor stands at the block of the next one, and its memory
holds the separate memories. The stack has a word for every two instructions at most. -/
theorem holds_run (h : Linked commands {} program lines rom)
    (straight : ∀ c ∈ commands, c.StraightLine)
    (apart : Apart (program.placement {}).statics (commands.flatMap Command.statics))
    (short : Lines.size lines ≤ 32767) {s : Store}
    (start : Holds (program.placement {}).statics (commands.flatMap Command.statics) .initial
      s.ram) (inside : i ≤ commands.length) {m : Separate}
    (run : Separate.run (commands.take i) = some m) :
    ∃ n, ∃ t : Store, n ≤ program.commandAddress {} i ∧
      2 * m.stack.length ≤ program.commandAddress {} i ∧
      Cpu.Steps n (s.cpu rom 0) (t.cpu rom (program.commandAddress {} i)) ∧
      Holds (program.placement {}).statics (commands.flatMap Command.statics) m t.ram := by
  -- The address of the next block bounds the steps so far and the height of the stack at once:
  -- both grow by no more than the size of a block.
  induction i generalizing m with
  | zero =>
    cases run
    exact ⟨0, s, Nat.zero_le _, Nat.zero_le _, .refl _, start⟩
  | succ i ih =>
    have found := List.getElem?_eq_getElem inside
    rw [List.take_add_one, found, Option.toList_some] at run
    obtain ⟨before, ran, stepped⟩ := Separate.run_snoc.mp run
    have among := List.getElem_mem inside
    have line := straight _ among
    obtain ⟨n, t, few, height, steps, holds⟩ := ih (Nat.le_of_succ_le inside) ran
    have address := h.commandAddress_le_size (Nat.le_of_succ_le inside)
    have own : ∀ v ∈ commands[i].statics, v ∈ commands.flatMap Command.statics :=
      fun v own => List.mem_flatMap.mpr ⟨_, among, own⟩
    obtain ⟨ram, executed, holds⟩ := holds.step apart (by omega) line own stepped i
    obtain ⟨k, u, bound, rfl, more⟩ := h.steps_straightLine found line executed
    have two := h.commandAddress_add_two_le found line
    have grown := Separate.length_step stepped
    exact ⟨n + k, u, by omega, by omega, steps.trans more, holds⟩

end Program.Linked

/-! ### Trials -/

namespace Trial

theorem ram_setRegisters (cpu : Cpu) : (setRegisters cpu).ram =
    ((((cpu.ram.setWord 0 256).setWord 1 300).setWord 2 400).setWord 3 3000).setWord 4 3010 := rfl

theorem setRegisters_load (image : Image) : setRegisters (.load image) =
    (Store.mk 0 0 (setRegisters (.load image)).ram).cpu image.words 0 := rfl

theorem word_zeroed (number : Nat) : Ram.zeroed.word number = 0 := Ram.read_zeroed _

/-- A trial starts with the separate memories in their initial state. -/
theorem holds_setRegisters {statics : String → Nat → Cell} {used : List (String × Nat)}
    (apart : Apart statics used) (image : Image) :
    Holds statics used .initial (setRegisters (.load image)).ram where
  pointer := by
    rw [ram_setRegisters]
    simp (disch := omega) only [Ram.word_setWord_ne, Ram.word_setWord_same]
    rfl
  stack := trivial
  places := by
    intro p known
    rw [ram_setRegisters]
    cases p with
    | temp i =>
      have cell : ∀ ram : Ram, ram.read ((Place.temp i).cell statics) = ram.word (5 + i) :=
        fun _ => rfl
      rw [cell]
      simp (disch := omega) only [Ram.word_setWord_ne]
      exact word_zeroed _
    | pointer i =>
      have cell : ∀ ram : Ram, ram.read ((Place.pointer i).cell statics) = ram.word (3 + i) :=
        fun _ => rfl
      rw [cell]
      match i with
      | 0 =>
        show Ram.word _ 3 = _
        simp (disch := omega) only [Ram.word_setWord_ne, Ram.word_setWord_same]
        rfl
      | 1 => exact Ram.word_setWord_same
    | static file index =>
      have low := apart.low_static known
      rw [read_setWord_ne (by omega) (by omega), read_setWord_ne (by omega) (by omega),
        read_setWord_ne (by omega) (by omega), read_setWord_ne (by omega) (by omega),
        read_setWord_ne (by omega) (by omega)]
      exact Ram.read_zeroed _

theorem execute_eq_ok {commands : List Command} {program : Program} {image : Image} {n : Nat}
    {cpu : Cpu} (translated : Program.ofCommands commands {} = .ok program)
    (assembled : assemble program.text = .ok image)
    (run : (setRegisters (.load image)).run stepLimit = (some n, cpu)) :
    execute commands = .ok cpu := by
  have loaded : load commands {} = .ok (program, .load image) :=
    Except.bind_eq_ok.mpr ⟨program, Except.mapError_eq_ok.mpr translated,
      Except.bind_eq_ok.mpr ⟨image, Except.mapError_eq_ok.mpr assembled, rfl⟩⟩
  apply Except.bind_eq_ok.mpr
  refine ⟨(program, .load image), loaded, ?_⟩
  dsimp only
  rw [finish, run]

theorem execute_eq_error {commands : List Command} {defect : Defect}
    (rejected : Program.ofCommands commands {} = .error defect) :
    execute commands = .error (.lowering defect) := by
  rw [execute, load, rejected]
  rfl

end Trial

theorem stack_of_holds {statics : String → Nat → Cell} {used : List (String × Nat)} {m : Separate}
    {cpu : Cpu} (holds : Holds statics used m cpu.ram) (room : m.stack.length ≤ 32511) :
    cpu.stack = m.stack.reverse := by
  have base : Platform.stackBase = 256 := rfl
  have cells : ∀ number, cpu.peek (BitVec.ofNat 16 number) = cpu.ram.word number := by
    intro number
    rw [Cpu.peek, cellOf_ofNat]
    rfl
  have pointer : cpu.sp = BitVec.ofNat 16 (Platform.stackBase + m.stack.length) :=
    (cells 0).trans holds.pointer
  have height : cpu.sp.toNat - Platform.stackBase = m.stack.length := by
    rw [pointer, BitVec.toNat_ofNat]
    omega
  rw [Cpu.stack, height, ← holds.stack.map_word]
  exact List.map_congr_left fun number _ => cells number

/-- A program without labels, jumps and functions runs as on the machine with separate memories. It
is only not translated if it has more comparisons than a session has numbers for. -/
theorem Trial.execute_straightLine {commands : List Command}
    (straight : ∀ c ∈ commands, c.StraightLine)
    (few : (commands.flatMap Command.statics).toFinset.card ≤ 240) {final : Separate}
    (run : Separate.run commands = some final) :
    (∃ program, Program.ofCommands commands {} = .ok program ∧
      ((program.blocks.flatMap Block.instructions).length ≤ 32767 →
        ∃ cpu, Trial.execute commands = .ok cpu ∧ cpu.halted = true ∧
          cpu.stack = final.stack.reverse ∧
          (∀ i : Fin 8, cpu.peek (BitVec.ofNat 16 (5 + i)) = final.temps i) ∧
          cpu.peek 3 = final.pointers 0 ∧ cpu.peek 4 = final.pointers 1 ∧
          ∀ v ∈ commands.flatMap Command.statics,
            cpu.ram.read ((program.placement {}).statics v.1 v.2) = final.statics v)) ∨
    Session.limit ≤ (commands.countP fun c => (Session.Step.command c).compares) + 1 ∧
      Trial.execute commands = .error (.lowering .numbersSpent) := by
  rcases Program.exists_ofCommands straight with ⟨program, translated⟩ | ⟨full, spent⟩
  case inr => exact .inr ⟨full, Trial.execute_eq_error spent⟩
  refine .inl ⟨program, translated, fun short => ?_⟩
  have named : ∀ c ∈ commands, c.Named := fun c inside => (straight c inside).named
  have fits := Program.fits_of_straightLine straight (few.trans (by decide)) translated short
  obtain ⟨image, assembled⟩ := Program.exists_assemble_of_fits translated named fits
  obtain ⟨lines, reads, placed⟩ := exists_assembled assembled
  have linked : Program.Linked commands {} program lines image.words :=
    ⟨translated, named, reads, placed⟩
  have apart := linked.apart straight few
  have size : Lines.size lines ≤ 32767 := by
    rw [linked.lines_eq, Lines.size, Program.code_body]
    exact short
  have whole : Separate.run (commands.take commands.length) = some final := by
    rw [List.take_length]
    exact run
  obtain ⟨n, t, bound, height, steps, holds⟩ := linked.holds_run straight apart size
    (s := ⟨0, 0, (Trial.setRegisters (.load image)).ram⟩) (Trial.holds_setRegisters apart image)
    (Nat.le_refl _) whole
  have address := linked.commandAddress_le_size (Nat.le_refl commands.length)
  obtain ⟨u, same, loop⟩ := linked.steps_endLoop rfl t
  have within : n + 2 < Trial.stepLimit := by
    rw [Trial.stepLimit]
    omega
  have halts := (steps.trans loop).run_halt_within rfl within
  rw [← Trial.setRegisters_load] at halts
  rw [← same] at holds
  refine ⟨_, Trial.execute_eq_ok translated assembled halts, rfl, ?_, ?_, ?_, ?_, ?_⟩
  · exact stack_of_holds holds (by omega)
  · intro i
    rw [Cpu.peek, cellOf_ofNat]
    exact holds.places (.temp i) trivial
  · exact holds.places (.pointer 0) trivial
  · exact holds.places (.pointer 1) trivial
  · intro v own
    exact holds.places (.static v.1 v.2) own

/-- A program that uses every kind of cell, and a comparison of words whose difference wraps. -/
def wrappingProgram : List Command :=
  [.access .push .constant 32767 "Main", .operator .neg, .access .pop .staticVar 3 "Main",
    .access .push .constant 2 "Main", .access .pop .temp 7 "Main",
    .access .push .staticVar 3 "Main", .access .push .temp 7 "Main", .operator .lt,
    .access .push .pointer 1 "Main", .access .pop .pointer 0 "Main"]

theorem Trial.execute_straightLine_wrappingProgram :
    (∀ c ∈ wrappingProgram, c.StraightLine) ∧
      (wrappingProgram.flatMap Command.statics).toFinset.card = 1 ∧
      ∃ program final cpu, Program.ofCommands wrappingProgram {} = .ok program ∧
        (program.blocks.flatMap Block.instructions).length ≤ 32767 ∧
        Separate.run wrappingProgram = some final ∧ Trial.execute wrappingProgram = .ok cpu ∧
        cpu.stack = [0] ∧ cpu.peek 12 = 2 ∧ cpu.peek 3 = 3010 ∧
        cpu.ram.read ((program.placement {}).statics "Main" 3) = -32767 := by
  have straight : ∀ c ∈ wrappingProgram, c.StraightLine := by decide
  have few : (wrappingProgram.flatMap Command.statics).toFinset.card ≤ 240 := by decide
  obtain ⟨final, run, stack, temp, pointer, static⟩ : ∃ final,
      Separate.run wrappingProgram = some final ∧ final.stack = [0] ∧ final.temps 7 = 2 ∧
        final.pointers 0 = 3010 ∧ final.statics ("Main", 3) = -32767 :=
    ⟨_, rfl, by decide, by decide, by decide, by decide⟩
  obtain ⟨program, translated, runs⟩ := (execute_straightLine straight few run).resolve_right
    fun full => absurd full.1 (by decide)
  have short : (program.blocks.flatMap Block.instructions).length ≤ 32767 := by
    cases translated
    decide
  obtain ⟨cpu, executed, -, same, temps, this, -, statics⟩ := runs short
  refine ⟨straight, by decide, program, final, cpu, translated, short, run, executed,
    ?_, ?_, ?_, ?_⟩
  · rw [same, stack]
    rfl
  · exact (temps 7).trans temp
  · exact this.trans pointer
  · exact (statics ("Main", 3) (by decide)).trans static

end HackToolchain
