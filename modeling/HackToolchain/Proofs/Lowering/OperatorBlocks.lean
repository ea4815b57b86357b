import HackToolchain.Proofs.Lowering.Acceptance
import HackToolchain.Proofs.Lowering.Operators
import HackToolchain.Proofs.Lowering.Returns
import HackToolchain.Proofs.StackMachine.Stack

/-! The blocks of operators in the machine code of a program, at every place of the stack. A
comparison takes one of two ways through its block, and decides on a difference that may wrap. -/

namespace HackToolchain

open StackMachine Lowering

/-! ### Differences that wrap -/

/-- A difference of words that is that of their values. -/
def InRange (right left : Word) : Prop :=
  -32768 ≤ right.toInt - left.toInt ∧ right.toInt - left.toInt ≤ 32767

/-- A difference out of range wraps once, and has the wrong sign then. -/
theorem toInt_sub_cases (right left : Word) :
    (InRange right left ∧ (right - left).toInt = right.toInt - left.toInt) ∨
      (¬InRange right left ∧ right.toInt < left.toInt ∧ 0 < (right - left).toInt) ∨
      (¬InRange right left ∧ left.toInt < right.toInt ∧ (right - left).toInt < 0) := by
  have lowRight : -32768 ≤ right.toInt := BitVec.le_toInt right
  have highRight : right.toInt < 32768 := BitVec.toInt_lt
  have lowLeft : -32768 ≤ left.toInt := BitVec.le_toInt left
  have highLeft : left.toInt < 32768 := BitVec.toInt_lt
  have wraps : (right - left).toInt = (right.toInt - left.toInt).bmod 65536 := BitVec.toInt_sub
  rw [Int.bmod_def] at wraps
  unfold InRange
  split at wraps <;> omega

theorem toInt_sub_neg_iff (right left : Word) :
    (InRange right left → ((right - left).toInt < 0 ↔ right.toInt < left.toInt)) ∧
      (¬InRange right left → ((right - left).toInt < 0 ↔ ¬right.toInt < left.toInt)) := by
  rcases toInt_sub_cases right left with
    ⟨fits, same⟩ | ⟨wraps, order, sign⟩ | ⟨wraps, order, sign⟩
  · exact ⟨fun _ => by omega, fun wraps => absurd fits wraps⟩
  · exact ⟨fun fits => absurd fits wraps, fun _ => by omega⟩
  · exact ⟨fun fits => absurd fits wraps, fun _ => by omega⟩

theorem toInt_sub_pos_iff (right left : Word) :
    (InRange right left → (0 < (right - left).toInt ↔ left.toInt < right.toInt)) ∧
      (¬InRange right left → (0 < (right - left).toInt ↔ ¬left.toInt < right.toInt)) := by
  rcases toInt_sub_cases right left with
    ⟨fits, same⟩ | ⟨wraps, order, sign⟩ | ⟨wraps, order, sign⟩
  · exact ⟨fun _ => by omega, fun wraps => absurd fits wraps⟩
  · exact ⟨fun fits => absurd fits wraps, fun _ => by omega⟩
  · exact ⟨fun fits => absurd fits wraps, fun _ => by omega⟩

/-! ### Comparisons -/

/-- Whether the code of a comparison of two words jumps. -/
def branches (op : Operator) (left right : Word) : Bool :=
  match op with
  | .eq => left ≠ right
  | .gt => (right - left).toInt < 0
  | .lt => (right - left).toInt ≤ 0
  | _ => false

/-- A value that a comparison of two words may leave on the stack. It is the truth about them only
if their difference does not wrap. -/
structure Decides (op : Operator) (left right value : Word) : Prop where
  truth : value = -1 ∨ value = 0
  equal : op = .eq → (value = -1 ↔ left = right)
  greater : op = .gt → (value = -1 ↔ (right - left).toInt < 0)
  less : op = .lt → (value = -1 ↔ 0 < (right - left).toInt)
  inRange : InRange right left →
    (op = .gt → (value = -1 ↔ right.toInt < left.toInt)) ∧
      (op = .lt → (value = -1 ↔ left.toInt < right.toInt))
  wrapped : ¬InRange right left →
    (op = .gt → (value = -1 ↔ ¬right.toInt < left.toInt)) ∧
      (op = .lt → (value = -1 ↔ ¬left.toInt < right.toInt))

theorem truth_eq_ones (b : Bool) : StackMachine.truth b = -1 ↔ b = true := by
  cases b <;> decide

/-- The code of a comparison jumps and decides by the difference of its operands. -/
theorem exists_comparison {op : Operator} (compares : op ∈ [.eq, .gt, .lt]) (left right : Word) :
    ∃ c, operation op = .comparison c ∧
      Mnemonic.condition c.condition (right - left) = branches op left right ∧
      Decides op left right (StackMachine.truth (c.outcome (right - left))) := by
  have either : ∀ b, StackMachine.truth b = -1 ∨ StackMachine.truth b = 0 := by decide
  have negative := toInt_sub_neg_iff right left
  have positive := toInt_sub_pos_iff right left
  simp only [List.mem_cons, List.not_mem_nil, or_false] at compares
  obtain rfl | rfl | rfl := compares
  · have zero := toInt_sub_eq_zero right left
    refine ⟨.equal, rfl, ?_, either _, fun _ => ?_, by simp, by simp, by simp, by simp⟩
    · simp only [Mnemonic.condition, Comparison.equal, branches, ne_eq, zero]
    · rw [truth_eq_ones, outcome_equal, decide_eq_true_eq]
  · have found : StackMachine.truth (Comparison.greater.outcome (right - left)) = -1 ↔
        (right - left).toInt < 0 := by
      rw [truth_eq_ones, outcome_greater, decide_eq_true_eq]
    exact ⟨.greater, rfl, rfl, either _, by simp, fun _ => found, by simp,
      fun fits => ⟨fun _ => found.trans (negative.1 fits), by simp⟩,
      fun wraps => ⟨fun _ => found.trans (negative.2 wraps), by simp⟩⟩
  · have found : StackMachine.truth (Comparison.less.outcome (right - left)) = -1 ↔
        0 < (right - left).toInt := by
      rw [truth_eq_ones, outcome_less, decide_eq_true_eq]
    exact ⟨.less, rfl, rfl, either _, by simp, by simp, fun _ => found,
      fun fits => ⟨by simp, fun _ => found.trans (positive.1 fits)⟩,
      fun wraps => ⟨by simp, fun _ => found.trans (positive.2 wraps)⟩⟩

namespace Program

variable {commands : List Command} {options : Options} {program : Program} {image : Image}
  {i n : Nat} {op : Operator} {cpu : Cpu}

/-- A comparison takes one of two ways through its block and leaves its value in place of its
operands, wherever these are in memory. -/
theorem run_comparison (translated : ((Session.program commands options).run.run n).1 = .ok program)
    (assembled : assemble program.text = .ok image)
    (found : commands[i]? = some (.operator op)) (compares : op ∈ [.eq, .gt, .lt])
    (here : cpu.StandsAt image (program.commandAddress options i)) {left right : Word}
    (upper : cellOf (cpu.sp - 1) ≠ 0) (lower : cellOf (cpu.sp - 2) ≠ 0)
    (hRight : cpu.peek (cpu.sp - 1) = right) (hLeft : cpu.peek (cpu.sp - 2) = left) :
    program.commandAddress options (i + 1) = program.commandAddress options i + 24 ∧
    (∃ mid, cpu.run 10 = (none, mid) ∧ mid.StandsAt image
      (program.commandAddress options i + if branches op left right then 18 else 10)) ∧
    ∃ after, cpu.run (if branches op left right then 16 else 18) = (none, after) ∧
      after.StandsAt image (program.commandAddress options (i + 1)) ∧
      after.sp = cpu.sp - 1 ∧ Decides op left right (after.peek (cpu.sp - 2)) ∧
      ∀ cell, cell ≠ 0 → cell ≠ cellOf (cpu.sp - 2) →
        after.ram.read cell = cpu.ram.read cell := by
  obtain ⟨lines, reads, placed⟩ := exists_assembled assembled
  obtain ⟨number, front, body, back, fragment, split, start, stop⟩ :=
    split_command translated reads found (by simp [Command.Named, Command.names])
  obtain ⟨c, isComparison, jumps, decides⟩ := exists_comparison compares left right
  have own : body = c.fragment number := by
    rw [← Except.ok.inj fragment, operator, isComparison]
  subst own
  rw [c.size_fragment, start] at stop
  have first : cellOf (cpu.ram.read sp - 1) ≠ sp := upper
  obtain ⟨mid, popped, popRight, popLeft, pointer, others⟩ := pop_pop first lower
  obtain ⟨ram, pushes, top⟩ : ∃ ram, push .inCells (StackMachine.truth (c.outcome (right - left)))
      popped = some ((), ram) ∧ OnTop (cpu.sp - 2) _ false cpu.ram ram :=
    onTop_push pointer lower fun cell register _ => others cell register
  have down : cpu.sp - 2 + 1 = cpu.sp - 1 := by bv_omega
  have atRight : cpu.ram.read (cellOf (cpu.ram.read sp - 1)) = right := hRight
  have atLeft : cpu.ram.read (cellOf (cpu.ram.read sp - 2)) = left := hLeft
  rw [atRight] at popRight
  rw [atLeft] at popLeft
  obtain ⟨t, -, test⟩ := c.steps_test (s := ⟨cpu.a, cpu.d, cpu.ram⟩) number placed split popRight
    popLeft
  obtain ⟨u, rfl, steps⟩ := c.steps (s := ⟨cpu.a, cpu.d, cpu.ram⟩) number placed split popRight
    popLeft pushes
  rw [start, ← here.eq_cpu, jumps] at test
  rw [start, stop, ← here.eq_cpu, jumps] at steps
  refine ⟨stop.symm, ⟨_, test.run_eq, t.standsAt_cpu image _⟩, _, steps.run_eq,
    u.standsAt_cpu image _, top.pointer.trans down, ?_, fun cell register free => ?_⟩
  · have value : (u.cpu image.words (program.commandAddress options (i + 1))).peek (cpu.sp - 2) =
        _ := top.top
    rw [value]
    exact decides
  · exact top.others cell register free (by simp)

/-- A comparison alone. -/
def greaterAlone : List Command := [.operator .gt]

/-- The difference of 20000 and -20000 wraps, so the greater word is not found to be greater. -/
theorem run_comparison_wrapped :
    ∃ program image, Program.ofCommands greaterAlone ⟨false, false⟩ = .ok program ∧
      assemble program.text = .ok image ∧ ∃ cpu : Cpu,
        cpu.StandsAt image (program.commandAddress ⟨false, false⟩ 0) ∧ cpu.sp = 258 ∧
        cpu.peek 256 = 20000 ∧ cpu.peek 257 = -20000 ∧ ∃ after, cpu.run 18 = (none, after) ∧
          after.StandsAt image (program.commandAddress ⟨false, false⟩ 1) ∧ after.sp = 257 ∧
          after.peek 256 = 0 := by
  obtain ⟨program, translated⟩ :
      ∃ program, Program.ofCommands greaterAlone ⟨false, false⟩ = .ok program := ⟨_, rfl⟩
  obtain ⟨image, assembled⟩ : ∃ image, assemble program.text = .ok image := by
    refine exists_assemble_of_few translated (by decide) (by decide) (by decide) (by decide) ?_ ?_
    all_goals
      cases translated
      decide
  obtain ⟨cpu, here, memory⟩ := Cpu.exists_standsAt image
    (program.commandAddress ⟨false, false⟩ 0)
    (((Ram.zeroed.setWord 0 258).setWord 256 20000).setWord 257 (-20000))
  have pointer : cpu.sp = 258 := by
    show cpu.ram.word 0 = 258
    rw [memory]
    simp (disch := omega) only [Ram.word_setWord_ne, Ram.word_setWord_same]
  have left : cpu.peek 256 = 20000 := by
    show cpu.ram.word 256 = 20000
    rw [memory]
    simp (disch := omega) only [Ram.word_setWord_ne, Ram.word_setWord_same]
  have right : cpu.peek 257 = -20000 := by
    show cpu.ram.word 257 = -20000
    rw [memory, Ram.word_setWord_same]
  have found : greaterAlone[0]? = some (.operator .gt) := rfl
  have upper : cpu.peek (cpu.sp - 1) = -20000 := pointer ▸ right
  have lower : cpu.peek (cpu.sp - 2) = 20000 := pointer ▸ left
  obtain ⟨-, -, after, run, goesOn, top, decides, -⟩ := run_comparison translated assembled found
    (by decide) here (by rw [pointer]; decide) (by rw [pointer]; decide) upper lower
  rw [pointer] at top decides
  have not_found : after.peek 256 ≠ -1 := fun ones =>
    absurd ((decides.greater rfl).mp ones) (by decide)
  exact ⟨program, image, translated, assembled, cpu, here, pointer, left, right, after, run, goesOn,
    top, decides.truth.resolve_left not_found⟩

end Program

end HackToolchain
