import HackToolchain.Proofs.Lowering.Linking
import HackToolchain.Proofs.Lowering.Returns

/-! The machine code of a program carries out the program: whenever the stack machine makes some
steps, the processor gets to the block of the next command with the same memory. It may halt early
only where the program would go round forever without doing anything. -/

namespace HackToolchain

open StackMachine

/-! ### Blocks without instructions -/

theorem Lowering.size_access_pos {op : StackOp} {segment : Segment} {index : Int32}
    {file : String} {body : Fragment} (h : access op segment index file = .ok body) :
    0 < Lines.size body := by
  obtain ⟨location, -, transfer⟩ := access_eq_ok.mp h
  cases op with
  | push =>
    subst transfer
    cases location <;> exact Nat.succ_pos _
  | pop =>
    cases location with
    | constant value => cases transfer
    | named name | indirect base offset | temp offset =>
      cases transfer
      exact Nat.succ_pos _

/-- A command whose block is empty does nothing. -/
theorem Command.execute_of_size_zero {c : Command} {number : Nat} {body : Lowering.Fragment}
    (fragment : c.fragment number = .ok body) (empty : Lines.size body = 0) (scratch : Scratch)
    (place : Placement) (commands : List Command) (index : Nat) (ram : Ram) :
    execute scratch place commands index c ram = some (index + 1, ram) := by
  cases c with
  | label name => rfl
  | function name locals =>
    cases fragment
    have none : locals.toNat = 0 := by
      cases count : locals.toNat with
      | zero => rfl
      | succ more =>
        rw [count, Lowering.function, List.replicate_succ, List.flatten_cons, Lines.size_label,
          Lines.size_append] at empty
        have seven : Lines.size Lowering.pushZero = 7 := rfl
        omega
    rw [execute, none]
    rfl
  | access op segment offset file =>
    have := Lowering.size_access_pos fragment
    omega
  | operator op =>
    cases fragment
    cases op <;> exact absurd empty (Nat.succ_ne_zero _)
  | goto name | ifGoto name | call name args | ret =>
    cases fragment
    exact absurd empty (Nat.succ_ne_zero _)

namespace Program

variable {commands : List Command} {options : Options} {program : Program} {lines : List Line}
  {rom : Array Word}

/-! ### Parked processors -/

/-- The machine is on its way, through empty blocks only, to a jump back to where it comes from. -/
def Parked (commands : List Command) (options : Options) (program : Program) (next : Nat) : Prop :=
  ∃ i name j, commands[i]? = some (.goto name) ∧
    (∀ ram, target commands name ram = some (j, ram)) ∧ j ≤ next ∧ next ≤ i ∧
      program.commandAddress options j = program.commandAddress options i

namespace Linked

theorem parked_of_goto (h : Linked commands options program lines rom) {i j : Nat} {name : String}
    {ram after : Ram} (found : commands[i]? = some (.goto name))
    (jumps : target commands name ram = some (j, after))
    (same : program.commandAddress options j = program.commandAddress options i) :
    Parked commands options program j := by
  obtain ⟨number, front, body, back, fragment, -, start, stop⟩ := h.split found
  cases fragment
  have two : Lines.size (Lowering.goto name) = 2 := rfl
  have before : j ≤ i := by
    by_contra later
    have above : program.commandAddress options (i + 1) ≤ program.commandAddress options j :=
      commandAddress_mono (by omega)
    omega
  have always : ∀ ram, target commands name ram = some (j, ram) := fun ram =>
    target_eq_some.mpr ⟨(target_eq_some.mp jumps).1, rfl⟩
  exact ⟨i, name, j, found, always, Nat.le_refl j, before, same⟩

/-- A parked machine goes on without a change of memory, and stays at the same address. -/
theorem step_of_parked (h : Linked commands options program lines rom) (scratch : Scratch)
    (place : Placement) {state : State} (parked : Parked commands options program state.next) :
    ∃ next, step scratch place commands state = some ⟨next, state.ram⟩ ∧
      Parked commands options program next ∧
      program.commandAddress options next = program.commandAddress options state.next := by
  obtain ⟨i, name, j, found, jumps, above, below, same⟩ := parked
  have low : program.commandAddress options j ≤ program.commandAddress options state.next :=
    commandAddress_mono above
  have high : program.commandAddress options state.next ≤ program.commandAddress options i :=
    commandAddress_mono below
  by_cases last : state.next = i
  · subst last
    exact ⟨j, step_eq_some.mpr ⟨.goto name, found, jumps state.ram⟩,
      ⟨state.next, name, j, found, jumps, Nat.le_refl j, above, same⟩, same⟩
  · have inside : state.next < commands.length := by
      have := (List.getElem?_eq_some_iff.mp found).1
      omega
    have here := List.getElem?_eq_getElem inside
    obtain ⟨number, front, body, back, fragment, -, start, stop⟩ := h.split here
    have next : program.commandAddress options (state.next + 1) ≤
        program.commandAddress options i := commandAddress_mono (by omega)
    have empty : Lines.size body = 0 := by omega
    have executed := Command.execute_of_size_zero fragment empty scratch place commands state.next
      state.ram
    exact ⟨state.next + 1, step_eq_some.mpr ⟨_, here, executed⟩,
      ⟨i, name, j, found, jumps, by omega, by omega, same⟩, by omega⟩

theorem run_of_parked (h : Linked commands options program lines rom) (scratch : Scratch)
    (place : Placement) {state : State} (parked : Parked commands options program state.next)
    (count : Nat) : ∃ later, run scratch place commands count state = some later ∧
      later.ram = state.ram := by
  induction count generalizing state with
  | zero => exact ⟨state, rfl, rfl⟩
  | succ count ih =>
    obtain ⟨next, first, stays, -⟩ := h.step_of_parked scratch place parked
    obtain ⟨later, rest, same⟩ :=
      ih (show Parked commands options program (State.mk next state.ram).next from stays)
    exact ⟨later, Option.bind_eq_some_iff.mpr ⟨_, first, rest⟩, same⟩

end Linked

/-! ### Steps -/

/-- The processor stands at the block of the next command with the memory of the machine. It may
have halted there if the machine goes on without doing anything. -/
structure Represents (commands : List Command) (options : Options) (program : Program)
    (rom : Array Word) (state : State) (cpu : Cpu) : Prop where
  rom : cpu.rom = rom
  pc : cpu.pc = program.commandAddress options state.next
  ram : cpu.ram = state.ram
  parked : cpu.halted = true → Parked commands options program state.next

namespace Linked

variable {state final : State} {cpu : Cpu}

theorem represents_step (h : Linked commands options program lines rom)
    (represents : Represents commands options program rom state cpu)
    (stepped : step .inCells (program.placement options) commands state = some final) :
    ∃ n after, Cpu.Steps n cpu after ∧ Represents commands options program rom final after := by
  cases halted : cpu.halted with
  | true =>
    obtain ⟨next, same, parked, address⟩ :=
      h.step_of_parked .inCells (program.placement options) (represents.parked halted)
    cases stepped.symm.trans same
    exact ⟨0, cpu, .refl cpu, represents.rom, represents.pc.trans address.symm, represents.ram,
      fun _ => parked⟩
  | false =>
    obtain ⟨c, found, run⟩ := step_eq_some.mp stepped
    have start := Cpu.eq_cpu halted
    rw [represents.rom, represents.pc] at start
    rw [← represents.ram] at run
    obtain ⟨n, t, parked, same, steps, loop⟩ :=
      h.reaches_execute (s := ⟨cpu.a, cpu.d, cpu.ram⟩) found run
    rw [← start] at steps
    refine ⟨n, _, steps, rfl, t.pc_jumped .., same, fun halted => ?_⟩
    obtain ⟨⟨name, rfl⟩, address⟩ := loop halted
    exact h.parked_of_goto found run address

theorem represents_run (h : Linked commands options program lines rom) {count : Nat}
    (represents : Represents commands options program rom state cpu)
    (runs : run .inCells (program.placement options) commands count state = some final) :
    ∃ n after, Cpu.Steps n cpu after ∧ Represents commands options program rom final after := by
  induction count generalizing state cpu with
  | zero =>
    cases runs
    exact ⟨0, cpu, .refl cpu, represents⟩
  | succ count ih =>
    obtain ⟨mid, first, rest⟩ := Option.bind_eq_some_iff.mp runs
    obtain ⟨n, between, steps, represents⟩ := h.represents_step represents first
    obtain ⟨m, after, more, done⟩ := ih represents rest
    exact ⟨n + m, after, steps.trans more, done⟩

/-! ### The start -/

/-- The bootstrap code sets up the stack and calls the entry function. -/
theorem represents_boot (h : Linked commands options program lines rom)
    (bootstrap : options.bootstrap = true) {s : Store} {j : Nat} {ram : Ram}
    (booted : boot .inCells (program.placement options) commands s.ram = some (j, ram)) :
    ∃ n after, Cpu.Steps n (s.cpu rom 0) after ∧
      Represents commands options program rom ⟨j, ram⟩ after := by
  have first : commandBlock options 0 = 1 := by
    rw [commandBlock, if_pos bootstrap]
  obtain ⟨front, body, back, split, readBody, start, stop⟩ :=
    exists_split h.reads (bootstrap_block h.translated bootstrap)
  have spelled : Block.WellSpelled ⟨"bootstrap", Lowering.bootstrap 0⟩ :=
    ⟨by decide, Lowering.wellSpelled_bootstrap 0⟩
  obtain rfl := read_wellSpelled spelled readBody
  have none : Lines.size front = 0 := start
  have next : program.commandAddress options 0 = 51 := by
    rw [commandAddress, first, ← stop, none]
    rfl
  -- The two instructions before the call and the two that store the stack pointer.
  obtain ⟨_, mid, sets, run⟩ := bind_eq_some.mp booted
  obtain ⟨_, entered, enters, jumps⟩ := bind_eq_some.mp run
  obtain ⟨setup, hSetup⟩ : ∃ setup, setup = [Lowering.literal Platform.stackBase,
      Lowering.assign "D" "A"] ++ Lowering.store "SP" := ⟨_, rfl⟩
  have performs : Performs lines setup
      (StackMachine.store .inCells sp (BitVec.ofNat 16 Platform.stackBase)) := by
    rw [hSetup]
    exact ((Lowering.realizes_literal Platform.stackBase "A" (fun _ a => a) fun _ _ _ => rfl).append
      (Lowering.realizes_store "SP")).performs fun d => by simp
  have body : Lowering.bootstrap 0 = setup ++ Lowering.call Platform.entryFunction 0 0 := by
    rw [hSetup]
    rfl
  have called : lines = front ++ setup ++ Lowering.call Platform.entryFunction 0 0 ++ back := by
    rw [split, List.append_assoc front setup, ← body]
  have whole := called.trans (List.append_assoc ..)
  have four : Lines.size (front ++ setup) = 4 := by
    rw [Lines.size_append, none, hSetup]
    rfl
  obtain ⟨t, rfl, begins⟩ := performs.steps (h.assembled.loaded whole) sets
  rw [← Lines.size_append, none, four] at begins
  have back : (program.placement options).address 0 = Lines.size (front ++ setup) + 47 := by
    rw [placement_address, next, four]
  rw [back] at enters
  obtain ⟨u, same, calls⟩ := Lowering.steps_call h.assembled called enters
  obtain ⟨rfl, place⟩ := h.address_target jumps
  have later : program.commandAddress options 0 ≤ program.commandAddress options j :=
    commandAddress_mono (Nat.zero_le j)
  rw [place, Store.jumped_of_not (by omega), four] at calls
  exact ⟨_, _, begins.trans calls, rfl, u.pc_jumped _ _ false, same,
    fun halted => absurd halted Bool.false_ne_true⟩

theorem represents_start (h : Linked commands options program lines rom) {s : Store}
    (started : start .inCells (program.placement options) commands options s.ram = some state) :
    ∃ n after, Cpu.Steps n (s.cpu rom 0) after ∧
      Represents commands options program rom state after := by
  rw [start] at started
  by_cases bootstrap : options.bootstrap
  · rw [if_pos bootstrap] at started
    obtain ⟨⟨j, ram⟩, booted, rfl⟩ := Option.map_eq_some_iff.mp started
    exact h.represents_boot bootstrap booted
  · rw [if_neg bootstrap] at started
    cases started
    have first : program.commandAddress options 0 = 0 := by
      rw [commandAddress, commandBlock, if_neg bootstrap]
      rfl
    exact ⟨0, _, .refl _, rfl, first.symm, rfl, fun halted => absurd halted Bool.false_ne_true⟩

/-! ### The end -/

theorem running_at_end (represents : Represents commands options program rom state cpu)
    (last : state.next = commands.length) : cpu.halted = false := by
  cases halted : cpu.halted with
  | false => rfl
  | true =>
    obtain ⟨i, name, j, found, -, -, below, -⟩ := represents.parked halted
    have := (List.getElem?_eq_some_iff.mp found).1
    omega

theorem endLoop_split (h : Linked commands options program lines rom)
    (terminate : options.terminate = true) :
    ∃ front number back, lines = front ++ Lowering.endLoop number ++ back ∧
      Lines.size front = program.commandAddress options commands.length := by
  obtain ⟨before, number, split, count⟩ := exists_lastBlocks h.translated
  rw [Session.lastBlocks, if_pos terminate] at split
  have found : program.blocks[commandBlock options commands.length]? =
      some ⟨"end program", Lowering.endLoop number⟩ := by
    rw [split, ← count, List.getElem?_append_right (Nat.le_refl _), Nat.sub_self]
    rfl
  obtain ⟨front, body, back, split, readBody, start, -⟩ := exists_split h.reads found
  have title : '\n' ∉ "end program".toList := by decide
  obtain rfl := read_wellSpelled ⟨title, Lowering.wellSpelled_endLoop number⟩ readBody
  exact ⟨front, number, back, split, start⟩

theorem size_rom (h : Linked commands options program lines rom)
    (terminate : ¬options.terminate = true) :
    rom.size = program.commandAddress options commands.length := by
  obtain ⟨before, number, split, count⟩ := exists_lastBlocks h.translated
  rw [Session.lastBlocks, if_neg terminate, List.append_nil] at split
  rw [h.assembled.size_rom, ← blockAddress_length h.reads, commandAddress, ← count, split]

/-- The closing loop parks the processor. -/
theorem steps_endLoop (h : Linked commands options program lines rom)
    (terminate : options.terminate = true) (s : Store) :
    ∃ t : Store, t.ram = s.ram ∧
      Cpu.Steps 2 (s.cpu rom (program.commandAddress options commands.length))
        (t.jumped rom (program.commandAddress options commands.length) true) := by
  obtain ⟨front, number, back, split, start⟩ := h.endLoop_split terminate
  have loop : Lines.address lines (Lowering.endLabel number) = Lines.size front :=
    h.assembled.address_label split (show _ = [] ++ _ from rfl)
  obtain ⟨t, same, steps⟩ := steps_goto (s := s) (h.assembled.loaded split)
  rw [loop, start, decide_eq_true rfl] at steps
  exact ⟨t, same, steps⟩

/-- Behind the last command the processor stops, in the closing loop or at the end of the ROM. -/
theorem stops_at_end (h : Linked commands options program lines rom)
    (represents : Represents commands options program rom state cpu)
    (last : state.next = commands.length) :
    ∃ n after, Cpu.Steps n cpu after ∧ after.next? = none ∧ after.ram = state.ram := by
  have running := running_at_end represents last
  have place := represents.pc
  rw [last] at place
  by_cases terminate : options.terminate
  · obtain ⟨t, same, steps⟩ := h.steps_endLoop terminate ⟨cpu.a, cpu.d, cpu.ram⟩
    rw [← place, ← represents.rom, ← Cpu.eq_cpu running] at steps
    exact ⟨2, _, steps, rfl, same.trans represents.ram⟩
  · have outside : cpu.next? = none := by
      rw [Cpu.next?, running, place, ← h.size_rom terminate, represents.rom]
      exact Array.getElem?_size
    exact ⟨0, cpu, .refl cpu, outside, represents.ram⟩

/-! ### Progress -/

/-- With its scratch registers in memory the machine only gets stuck in a return. -/
theorem total_execute (h : Linked commands options program lines rom) {i : Nat} {c : Command}
    (found : commands[i]? = some c) (other : c ≠ .ret)
    (declared : ∀ name ∈ c.jumpsTo, ∃ d ∈ commands, d.declares name) :
    Total (execute .inCells (program.placement options) commands i c) := by
  obtain ⟨number, front, body, back, fragment, -, -, -⟩ := h.split found
  cases c with
  | operator op => exact (total_operate op).bind fun _ => total_pure _
  | access op segment index file =>
    have performs : Performs lines body _ := Lowering.performs_access fragment
    have accesses : Total (access .inCells (program.placement options).statics op segment
        index.toInt.toNat file) := by
      rw [h.access_eq found]
      exact fun ram => ⟨(), _, performs.effect ⟨0, 0, ram⟩⟩
    exact accesses.bind fun _ => total_pure _
  | label name => exact total_pure _
  | goto name => exact total_target (declared name rfl)
  | ifGoto name =>
    refine total_pop.bind fun condition => ?_
    split
    · exact total_pure _
    · exact total_target (declared name rfl)
  | function name locals => exact (total_pushZeros locals.toNat).bind fun _ => total_pure _
  | call name args =>
    exact (total_enter args.toNat _).bind fun _ => total_target (declared name rfl)
  | ret => contradiction

end Linked

/-- A processor with the machine code of a program carries out the program. After any number of
steps of the stack machine it gets to the block of the next command, and behind the last one it
halts; their memories agree. Before that it halts only where the machine goes on forever without a
change of memory. The machine itself gets stuck in returns only, unless its scratch registers are
outside of memory and their cells are addressed. -/
theorem simulates (translated : Program.ofCommands commands options = .ok program)
    (named : ∀ c ∈ commands, c.Named) {image : Image}
    (assembled : assemble program.text = .ok image)
    (declared : ∀ c ∈ commands, ∀ name ∈ c.jumpsTo, ∃ d ∈ commands, d.declares name)
    (entry : options.bootstrap = true → ∃ d ∈ commands, d.declares Platform.entryFunction)
    (scratch : Scratch) {cpu : Cpu} (loaded : cpu.StandsAt image 0) {ram : Ram}
    (memory : scratch.Agree ram cpu.ram) :
    (∀ count state, runProgram scratch (program.placement options) commands options ram count =
        some state →
      (∃ n after, cpu.run n = (none, after) ∧ after.rom = image.words ∧
        after.pc = program.commandAddress options state.next ∧
        scratch.Agree state.ram after.ram ∧
        (after.halted = true → ∀ more, ∃ later,
          run scratch (program.placement options) commands more state = some later ∧
            later.ram = state.ram)) ∧
      (state.next = commands.length → ∃ n after, cpu.run (n + 1) = (some n, after) ∧
        after.halted = true ∧ scratch.Agree state.ram after.ram)) ∧
    (scratch = .inCells →
      (start scratch (program.placement options) commands options ram).isSome ∧
      ∀ state : State, state.next < commands.length → commands[state.next]? ≠ some .ret →
        (step scratch (program.placement options) commands state).isSome) := by
  obtain ⟨lines, reads, placed⟩ := exists_assembled assembled
  have linked : Linked commands options program lines image.words :=
    ⟨translated, named, reads, placed⟩
  refine ⟨fun count state runs => ?_, ?_⟩
  · obtain ⟨first, started, rest⟩ := Option.bind_eq_some_iff.mp runs
    obtain ⟨ram', started, related⟩ := start_agree memory started
    obtain ⟨final, rest, related⟩ := run_agree related rest
    obtain ⟨n, begun, begins, represents⟩ :=
      linked.represents_start (s := ⟨cpu.a, cpu.d, cpu.ram⟩) started
    obtain ⟨m, after, continues, represents⟩ := linked.represents_run represents rest
    have steps := begins.trans continues
    rw [← loaded.eq_cpu] at steps
    have agree : scratch.Agree state.ram after.ram := represents.ram ▸ related
    refine ⟨⟨n + m, after, steps.run_eq, represents.rom, represents.pc, agree, fun halted => ?_⟩,
      fun last => ?_⟩
    · exact linked.run_of_parked scratch _ (represents.parked halted)
    · obtain ⟨k, halt, ends, stops, same⟩ := linked.stops_at_end represents last
      refine ⟨n + m + k, _, (steps.trans ends).run_halt stops, rfl, ?_⟩
      show scratch.Agree state.ram halt.ram
      rw [same]
      exact related
  · rintro rfl
    refine ⟨exists_start _ ram entry, fun state inside other => ?_⟩
    have found := List.getElem?_eq_getElem inside
    rw [found] at other
    have total := linked.total_execute found (fun same => other (congrArg some same))
      (declared _ (List.getElem_mem inside))
    obtain ⟨next, after, run⟩ := total state.ram
    exact Option.isSome_iff_exists.mpr ⟨⟨next, after⟩, step_eq_some.mpr ⟨_, found, run⟩⟩

/-- The entry function sets its local variable and then stays in a loop. -/
def idleProgram : List Command :=
  [.function "Sys.init" 1, .access .push .constant 7 "Main", .access .pop .localVar 0 "Main",
    .label "idle", .goto "IDLE"]

theorem simulates_idleProgram :
    ∃ program image, Program.ofCommands idleProgram ⟨true, true⟩ = .ok program ∧
      assemble program.text = .ok image ∧ ∃ state,
        runProgram .inCells (program.placement ⟨true, true⟩) idleProgram ⟨true, true⟩ .zeroed 5 =
          some state ∧ state.next = 3 ∧
        ∃ n after, (Cpu.load image).run n = (none, after) ∧
          after.pc = program.commandAddress ⟨true, true⟩ 3 ∧ after.ram = state.ram := by
  obtain ⟨program, translated⟩ :
      ∃ program, Program.ofCommands idleProgram ⟨true, true⟩ = .ok program := ⟨_, rfl⟩
  have few : (program.blocks.flatMap Block.instructions).length ≤ 32767 := by
    cases translated
    decide
  have fits : Fits idleProgram ⟨true, true⟩ program := by
    refine .of_few few (by decide) (by decide) (by decide) ?_
    cases translated
    decide
  obtain ⟨image, assembled⟩ := exists_assemble_of_fits translated (by decide) fits
  obtain ⟨state, runs, next⟩ : ∃ state, runProgram .inCells (program.placement ⟨true, true⟩)
      idleProgram ⟨true, true⟩ .zeroed 5 = some state ∧ state.next = 3 := ⟨_, rfl, rfl⟩
  have result := simulates translated (by decide) assembled (by decide) (by decide) .inCells
    (show (Cpu.load image).StandsAt image 0 from ⟨rfl, rfl, rfl⟩)
    (show Scratch.inCells.Agree .zeroed (Cpu.load image).ram from rfl)
  obtain ⟨⟨n, after, run, -, place, agree, -⟩, -⟩ := result.1 5 state runs
  rw [next] at place
  exact ⟨program, image, translated, assembled, state, runs, next, n, after, run, place, agree.symm⟩

end Program

end HackToolchain
