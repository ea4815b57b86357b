import HackToolchain.Proofs.Lowering.FreeSymbols
import HackToolchain.Proofs.Lowering.Operators
import HackToolchain.Proofs.Lowering.Returns

/-! The entry of a function. The block of a call and the block of the function that it calls run one
after the other; the callee then has its arguments, the frame that it returns by, and local
variables that are zero. Names are compared as they are read, without their white space. -/

namespace HackToolchain

open StackMachine Lowering

/-! ### Names of functions -/

section

variable {name : String}

/-- White space is all that a name loses when it is spelled as it is read. -/
theorem isSymbolChar_of_spelled (isName : isSymbol (spelled name).toList) {c : Char}
    (inside : c ∈ name.toList) (visible : Text.isBlank c = false) : isSymbolChar c := by
  refine isSymbol_all isName c ?_
  rw [spelled, String.toList_ofList, Text.unspaced, List.mem_filter, visible]
  exact ⟨inside, rfl⟩

theorem code_of_spelled (isName : isSymbol (spelled name).toList) :
    Text.code name.toList = name.toList := by
  refine Text.code_eq_self fun comment => ?_
  have slash := isSymbolChar_of_spelled isName (comment.mem (by simp)) (c := '/') (by decide)
  exact absurd slash (by decide)

/-- The label of a symbol that is spelled with white space is in one line if it is read. -/
theorem feed_not_mem_of_readable (isName : isSymbol (spelled name).toList)
    (label : Readable (Line.label name).text.toList) : '\n' ∉ name.toList := by
  intro inside
  obtain ⟨front, back, split, first⟩ := List.eq_append_cons_of_mem inside
  rw [Line.toList_text_label, split, List.append_assoc, List.cons_append, ← List.cons_append,
    Readable, Text.cleanLines_append, Text.cleanLines_cons (by decide) first] at label
  obtain ⟨_, declares⟩ := label _ (List.mem_append_left _ (List.mem_singleton_self _))
  obtain ⟨declared, same, -⟩ := Line.read_label.mp declares
  -- The line before the line feed has no parenthesis to close the label.
  have among : ∀ c ∈ front, c ∈ name.toList := fun c hc => split ▸ List.mem_append_left _ hc
  have slash : '/' ∉ front := fun comment =>
    absurd (isSymbolChar_of_spelled isName (among _ comment) (by decide)) (by decide)
  have closing : ')' ∈ Text.unspaced front := by
    rw [← Text.clean_eq_unspaced slash, same]
    simp
  have inFront : ')' ∈ front := List.mem_of_mem_filter closing
  exact absurd (isSymbolChar_of_spelled isName (among _ inFront) (by decide)) (by decide)

end

/-! ### Blocks of functions -/

theorem Lowering.size_function (name : String) (locals : Nat) :
    Lines.size (function name locals) = 7 * locals := by
  have zeros : Lines.size (List.replicate locals pushZero).flatten = 7 * locals := by
    induction locals with
    | zero => rfl
    | succ locals ih =>
      have one : Lines.size pushZero = 7 := rfl
      rw [List.replicate_succ, List.flatten_cons, Lines.size_append, ih, one]
      omega
  rw [function, Lines.size_label, zeros]

/-- The block of a function reads as the entry of the function under its name as it is read. -/
theorem read_function {block : Block} {name : String} {locals : Nat} {lines : List Line}
    (isName : isSymbol (spelled name).toList) (body : block.body = function name locals)
    (titled : '\n' ∉ name.toList → '\n' ∉ block.title.toList)
    (reads : readSource block.text = .ok lines) : lines = function (spelled name) locals := by
  have label : Readable (Line.label name).text.toList := by
    apply readable_of_readSource reads
    simp only [Block.lines, List.mem_append, List.mem_cons, List.mem_map]
    exact .inl (.inr ⟨.label name, by simp [body, function], rfl⟩)
  have single := feed_not_mem_of_readable isName label
  have first : block.body = [] ++ function name locals := body
  obtain ⟨middle, read, rfl⟩ := read_around (titled single) first (by simp)
    (wellSpelled_pushZeros locals) reads
  obtain ⟨declared, rfl, same⟩ := read_labelLine single read
  rw [same (code_of_spelled isName)]
  rfl

namespace Program

variable {commands : List Command} {options : Options} {program : Program} {lines : List Line}
  {image : Image} {n : Nat}

/-- The lines of a function of a program, with the name spelled as it is read. -/
theorem split_function (translated : ((Session.program commands options).run.run n).1 = .ok program)
    (reads : readSource program.text = .ok lines) {j : Nat} {name : String} {locals : UInt16}
    (found : commands[j]? = some (.function name locals))
    (isName : isSymbol (Lowering.spelled name).toList) :
    ∃ front back, lines = front ++ function (Lowering.spelled name) locals.toNat ++ back ∧
      Lines.size front = program.commandAddress options j ∧
      program.commandAddress options (j + 1) =
        program.commandAddress options j + 7 * locals.toNat := by
  obtain ⟨number, block, front, body, back, fragment, title, readBody, split, start, stop⟩ :=
    split_block translated reads found
  have titled : '\n' ∉ name.toList → '\n' ∉ block.title.toList := by
    intro single
    rw [title]
    apply feed_not_mem_intercalate
    simp only [Command.words, List.forall_mem_cons]
    exact ⟨by decide, single, feed_not_mem_toString _, by simp⟩
  obtain rfl := read_function isName (Except.ok.inj fragment).symm titled readBody
  rw [size_function, start] at stop
  exact ⟨front, back, split, start, stop.symm⟩

/-- A call and the entry of its function run through in one go: behind the entry the callee has its
arguments in place, its local variables are zero, and the frame holds the return address and the
registers of the caller. No other cell changes. -/
theorem call_enters_function
    (translated : ((Session.program commands options).run.run n).1 = .ok program)
    (assembled : assemble program.text = .ok image) {i j : Nat} {name declared : String}
    {args locals : UInt16} (calls : commands[i]? = some (.call name args))
    (declares : commands[j]? = some (.function declared locals))
    (target : Lowering.spelled declared = Lowering.spelled name) {cpu : Cpu} {s : Nat}
    (here : cpu.StandsAt image (program.commandAddress options i))
    (stack : (cpu.ram.word 0).toNat = s) (low : 256 ≤ s) (high : s + 5 + locals.toNat ≤ 32767)
    (room : args.toNat + 16 ≤ s) :
    program.commandAddress options (i + 1) = program.commandAddress options i + 47 ∧
    program.commandAddress options (j + 1) =
      program.commandAddress options j + 7 * locals.toNat ∧
    ∃ entered, cpu.run (47 + 7 * locals.toNat) = (none, entered) ∧
      entered.StandsAt image (program.commandAddress options (j + 1)) ∧
      (entered.ram.word 0).toNat = s + 5 + locals.toNat ∧
      (entered.ram.word 1).toNat = s + 5 ∧
      (entered.ram.word 2).toNat = s - args.toNat ∧
      (∀ k < args.toNat,
        entered.ram.word (s - args.toNat + k) = cpu.ram.word (s - args.toNat + k)) ∧
      (∀ k < locals.toNat, entered.ram.word (s + 5 + k) = 0) ∧
      (entered.ram.word s).toNat = program.commandAddress options i + 47 ∧
      (∀ k < 4, entered.ram.word (s + 1 + k) = cpu.ram.word (k + 1)) ∧
      ∀ k < 32768, k ∉ [0, 1, 2] → (k < s ∨ s + 5 + locals.toNat ≤ k) →
        entered.ram.word k = cpu.ram.word k := by
  obtain ⟨lines, reads, placed⟩ := exists_assembled assembled
  obtain ⟨next, small, isName, -, t, frame, steps⟩ :=
    steps_call_block translated reads placed calls here stack (by omega) (by omega)
  obtain ⟨front, back, split, start, stop⟩ :=
    split_function translated reads declares (target ▸ isName)
  -- The jump goes to the block of the function, which does not lie inside of that of the call.
  have entry : Lines.address lines (Lowering.spelled name) = program.commandAddress options j := by
    rw [← target, placed.address_label split (show _ = [] ++ _ from rfl), Lines.size_nil,
      Nat.add_zero, start]
  have outside : program.commandAddress options j ≠ program.commandAddress options i + 45 :=
    commandAddress_ne i (by omega) (by omega)
  rw [entry, Store.jumped_of_not outside] at steps
  have zeros : Performs lines (function (Lowering.spelled declared) locals.toNat) _ :=
    (performs_pushZeros locals.toNat).label _
  have room : s + 5 + locals.toNat ≤ 32768 := by omega
  obtain ⟨ram, cleared, top, zero, others⟩ := run_pushZeros frame.pointer (by omega) room
  obtain ⟨u, rfl, clears⟩ := zeros.steps (s := t) (placed.loaded split) cleared
  rw [size_function, start, ← stop] at clears
  have below : ∀ k, 0 < k → k < s + 5 → u.ram.word k = t.ram.word k := fun k positive inside =>
    others k (by omega) (by omega) (.inl inside)
  have number : ∀ value < 32768, (BitVec.ofNat 16 value).toNat = value := by
    intro value few
    rw [BitVec.toNat_ofNat]
    omega
  refine ⟨next, stop, _, (steps.trans clears).run_eq, u.standsAt_cpu image _, ?_, ?_, ?_,
    fun k hk => ?_, zero, ?_, fun k hk => ?_, fun k hk register free => ?_⟩
  · show (u.ram.word 0).toNat = _
    rw [top, number _ (by omega)]
  · show (u.ram.word 1).toNat = _
    rw [below 1 (by omega) (by omega), frame.locals, number _ (by omega)]
  · show (u.ram.word 2).toNat = _
    rw [below 2 (by omega) (by omega), frame.arguments (by omega), number _ (by omega)]
  · show u.ram.word _ = _
    rw [below _ (by omega) (by omega),
      frame.others _ (by omega) (by simp; omega) (.inl (by omega))]
  · show (u.ram.word s).toNat = _
    rw [below s (by omega) (by omega), frame.back, next, number _ (by omega)]
  · show u.ram.word _ = _
    rw [below _ (by omega) (by omega), frame.saved k hk]
  · have positive : k ≠ 0 := fun same => register (by simp [same])
    show u.ram.word k = _
    rw [others k hk positive (by omega), frame.others k hk register (by omega)]

/-- A call with two arguments of a function with three local variables. -/
def callWithLocals : List Command := [.call "Main.run" 2, .function "Main.run" 3]

/-- The second local variable was 9 before the call. -/
theorem call_enters_function_staleCell :
    ∃ program image, Program.ofCommands callWithLocals ⟨false, false⟩ = .ok program ∧
      assemble program.text = .ok image ∧ ∃ cpu : Cpu,
        cpu.StandsAt image (program.commandAddress ⟨false, false⟩ 0) ∧
        cpu.ram.word 259 = 7 ∧ cpu.ram.word 266 = 9 ∧ ∃ entered, cpu.run 68 = (none, entered) ∧
          entered.StandsAt image (program.commandAddress ⟨false, false⟩ 2) ∧
          (entered.ram.word 2).toNat = 258 ∧ entered.ram.word 259 = 7 ∧
          entered.ram.word 266 = 0 := by
  obtain ⟨program, translated⟩ :
      ∃ program, Program.ofCommands callWithLocals ⟨false, false⟩ = .ok program := ⟨_, rfl⟩
  have few : (program.blocks.flatMap Block.instructions).length ≤ 32767 := by
    cases translated
    decide
  have fits : Fits callWithLocals ⟨false, false⟩ program := by
    refine .of_few few (by decide) (by decide) (by decide) ?_
    cases translated
    decide
  obtain ⟨image, assembled⟩ := exists_assemble_of_fits translated (by decide) fits
  obtain ⟨ram, hRam⟩ :
      ∃ ram, ram = ((Ram.zeroed.setWord 0 260).setWord 259 7).setWord 266 9 := ⟨_, rfl⟩
  obtain ⟨cpu, hCpu⟩ : ∃ cpu, cpu = (Store.mk 0 0 ram).cpu image.words
      (program.commandAddress ⟨false, false⟩ 0) := ⟨_, rfl⟩
  have memory : cpu.ram = ram := hCpu ▸ rfl
  have here := hCpu ▸ (Store.mk 0 0 ram).standsAt_cpu image
    (program.commandAddress ⟨false, false⟩ 0)
  have argument : cpu.ram.word 259 = 7 := by
    rw [memory, hRam]
    simp (disch := omega) only [Ram.word_setWord_ne, Ram.word_setWord_same]
  have stale : cpu.ram.word 266 = 9 := by rw [memory, hRam, Ram.word_setWord_same]
  have stack : (cpu.ram.word 0).toNat = 260 := by
    rw [memory, hRam]
    simp (disch := omega) only [Ram.word_setWord_ne, Ram.word_setWord_same]
    rfl
  obtain ⟨-, -, entered, run, goesOn, -, -, first, arguments, zero, -⟩ :=
    call_enters_function translated assembled (i := 0) (j := 1) rfl rfl rfl here stack (by omega)
      (by decide) (by decide)
  exact ⟨program, image, translated, assembled, cpu, here, argument, stale, entered, run, goesOn,
    first, (arguments 1 (by decide)).trans argument, zero 1 (by decide)⟩

end Program

end HackToolchain
