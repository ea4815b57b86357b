import HackToolchain.Proofs.Lowering.Realization

/-! The code of operators. A comparison branches on the sign of the difference of its operands; both
branches push a truth value and end behind the block. -/

namespace HackToolchain

open StackMachine

variable {lines front back : List Line} {rom : Array Word} {s : Store} {ram : Ram}

theorem Store.jumped_of_not {target pc : Nat} (h : target ≠ pc) :
    s.jumped rom target (decide (target = pc)) = s.cpu rom target := by
  rw [decide_eq_false h]
  rfl

namespace Lowering

/-! ### Arithmetic and logic -/

theorem realizes_binary (comp : String) (combine : Word → Word → Word)
    (h : ∀ d a m, Mnemonic.value d a m comp.toList = combine d m) :
    Realizes lines (popData ++ popThrough comp ++ pushData) fun _ => do
      let right ← pop .inCells
      let left ← pop .inCells
      push .inCells (combine right left)
      return combine right left := by
  refine ((realizes_popData.append (realizes_popThrough comp combine h)).append
    realizes_pushData).congr fun d => ?_
  simp

theorem realizes_unary (comp : String) (combine : Word → Word)
    (h : ∀ d a m, Mnemonic.value d a m comp.toList = combine m) :
    Realizes lines (popThrough comp ++ pushData) fun _ => do
      let top ← pop .inCells
      push .inCells (combine top)
      return combine top := by
  refine ((realizes_popThrough comp (fun _ m => combine m) h).append
    realizes_pushData).congr fun d => ?_
  simp

theorem performs_operator {op : Operator} {number : Nat}
    (h : ∀ c, operation op ≠ .comparison c) :
    Performs lines (operator op number) (operate .inCells op) := by
  cases op with
  | add =>
    exact (realizes_binary "D+M" (fun right left => right + left) fun _ _ _ => rfl).performs
      fun d => by simp [operate, operate.binary, BitVec.add_comm]
  | sub =>
    exact (realizes_binary "M-D" (fun right left => left - right) fun _ _ _ => rfl).performs
      fun d => by simp [operate, operate.binary]
  | and =>
    exact (realizes_binary "D&M" (fun right left => right &&& left) fun _ _ _ => rfl).performs
      fun d => by simp [operate, operate.binary, BitVec.and_comm]
  | or =>
    exact (realizes_binary "D|M" (fun right left => right ||| left) fun _ _ _ => rfl).performs
      fun d => by simp [operate, operate.binary, BitVec.or_comm]
  | neg =>
    exact (realizes_unary "-M" (fun top => -top) fun _ _ _ => rfl).performs
      fun d => by simp [operate]
  | not =>
    exact (realizes_unary "!M" (fun top => ~~~top) fun _ _ _ => rfl).performs
      fun d => by simp [operate]
  | eq | gt | lt => exact absurd rfl (h _)

/-! ### Comparisons -/

/-- A comparison starts with the difference of its operands. -/
theorem realizes_difference :
    Realizes lines (popData ++ popThrough "D-M") fun _ => do
      let right ← pop .inCells
      let left ← pop .inCells
      return right - left :=
  realizes_popData.append (realizes_popThrough "D-M" (fun right left => right - left)
    fun _ _ _ => rfl)

theorem realizes_pushTruth (b : Bool) :
    Realizes lines ([assign "D" (Lowering.truth b)] ++ pushData) fun _ => do
      push .inCells (StackMachine.truth b)
      return StackMachine.truth b := by
  refine ((realizes_truth b).append realizes_pushData).congr fun d => ?_
  simp

/-- What a comparison pushes for a difference. -/
def Comparison.outcome (c : Comparison) (difference : Word) : Bool :=
  if Mnemonic.condition c.condition difference then c.taken else ! c.taken

theorem toInt_sub_eq_zero (right left : Word) : (right - left).toInt = 0 ↔ left = right := by
  rw [← BitVec.toInt_zero (w := 16), BitVec.toInt_inj, BitVec.sub_eq_iff_eq_add, BitVec.zero_add,
    eq_comm]

theorem outcome_equal (right left : Word) :
    Comparison.equal.outcome (right - left) = decide (left = right) := by
  simp [-BitVec.toInt_sub, Comparison.outcome, Comparison.equal, Mnemonic.condition,
    toInt_sub_eq_zero]

theorem outcome_greater (difference : Word) :
    Comparison.greater.outcome difference = decide (difference.toInt < 0) := by
  simp [Comparison.outcome, Comparison.greater, Mnemonic.condition]

theorem outcome_less (difference : Word) :
    Comparison.less.outcome difference = decide (0 < difference.toInt) := by
  have total : difference.toInt ≤ 0 ↔ ¬0 < difference.toInt := Int.not_lt.symm
  simp only [Comparison.outcome, Comparison.less, Mnemonic.condition, total]
  by_cases positive : 0 < difference.toInt <;> simp [positive]

/-- A comparison as a computation: it decides on the difference of its operands. -/
def Comparison.compare (c : Comparison) : Memory Unit := do
  let right ← pop .inCells
  let left ← pop .inCells
  push .inCells (StackMachine.truth (c.outcome (right - left)))

theorem operate_comparison {op : Operator} {c : Comparison} (h : operation op = .comparison c) :
    operate .inCells op = c.compare := by
  cases op with
  | eq =>
    cases h
    simp only [operate, operate.binary, Comparison.compare, outcome_equal]
  | gt =>
    cases h
    simp only [operate, operate.binary, Comparison.compare, outcome_greater]
  | lt =>
    cases h
    simp only [operate, operate.binary, Comparison.compare, outcome_less]
  | add | sub | and | or | neg | not => cases h

theorem Comparison.code_fragment (c : Comparison) (number : Nat) :
    Lines.code (c.fragment number) =
      Lines.code (popData ++ popThrough "D-M") ++
      (Lines.code [symbol (c.branchLabel number), jump "D" c.condition] ++
      (Lines.code ([assign "D" (Lowering.truth (! c.taken))] ++ pushData) ++
      (Lines.code [symbol (c.endLabel number), jump "0" "JMP"] ++
        Lines.code ([assign "D" (Lowering.truth c.taken)] ++ pushData)))) := rfl

theorem Comparison.size_fragment (c : Comparison) (number : Nat) :
    Lines.size (c.fragment number) = 24 := rfl

theorem Comparison.address_labels (c : Comparison) (number : Nat)
    (assembled : Lines.Assembled lines rom) (split : lines = front ++ c.fragment number ++ back) :
    Lines.address lines (c.branchLabel number) = Lines.size front + 18 ∧
      Lines.address lines (c.endLabel number) = Lines.size front + 24 := by
  constructor
  · exact assembled.address_label split (show _ = (popData ++ popThrough "D-M" ++
      [symbol (c.branchLabel number), jump "D" c.condition, assign "D" (truth (! c.taken))] ++
      pushData ++ [symbol (c.endLabel number), jump "0" "JMP"]) ++
      .label (c.branchLabel number) :: _ from rfl)
  · exact assembled.address_label split (show _ = (popData ++ popThrough "D-M" ++
      [symbol (c.branchLabel number), jump "D" c.condition, assign "D" (truth (! c.taken))] ++
      pushData ++ [symbol (c.endLabel number), jump "0" "JMP", .label (c.branchLabel number),
        assign "D" (truth c.taken)] ++ pushData) ++ .label (c.endLabel number) :: _ from rfl)

/-- A comparison branches on the difference of its operands, which it has taken off the stack. -/
theorem Comparison.steps_test (c : Comparison) (number : Nat) {right left : Word} {mid popped : Ram}
    (assembled : Lines.Assembled lines rom) (split : lines = front ++ c.fragment number ++ back)
    (popRight : pop .inCells s.ram = some (right, mid))
    (popLeft : pop .inCells mid = some (left, popped)) :
    ∃ t : Store, t.ram = popped ∧ Cpu.Steps 10 (s.cpu rom (Lines.size front))
      (t.cpu rom (Lines.size front +
        if Mnemonic.condition c.condition (right - left) then 18 else 10)) := by
  obtain ⟨branchAddress, -⟩ := c.address_labels number assembled split
  have loaded := assembled.loaded split
  rw [c.code_fragment number, loaded_append, loaded_append] at loaded
  obtain ⟨test, branch, -⟩ := loaded
  have difference : (do
      let right ← pop .inCells
      let left ← pop .inCells
      return right - left : Memory Word) s.ram = some (right - left, popped) :=
    bind_eq_some.mpr ⟨_, _, popRight, bind_eq_some.mpr ⟨_, _, popLeft, rfl⟩⟩
  obtain ⟨t, value, rfl, first⟩ := realizes_difference.steps test difference
  obtain ⟨u, same, second⟩ : ∃ u : Store, u.ram = t.ram ∧
      Cpu.Steps 2 (t.cpu rom (Lines.size front + 8))
        (if Mnemonic.condition c.condition t.d then
          u.jumped rom (Lines.address lines (c.branchLabel number))
            (Lines.address lines (c.branchLabel number) = Lines.size front + 8)
        else u.cpu rom (Lines.size front + 10)) := steps_branch branch
  rw [value, branchAddress, Store.jumped_of_not (by omega)] at second
  refine ⟨u, same, ?_⟩
  split
  · next taken =>
    rw [if_pos taken] at second
    exact first.trans second
  · next passed =>
    rw [if_neg passed] at second
    exact first.trans second

/-- The branch of a comparison pushes its truth value at the end of the block. -/
theorem Comparison.steps_taken (c : Comparison) (number : Nat)
    (assembled : Lines.Assembled lines rom) (split : lines = front ++ c.fragment number ++ back)
    (pushes : push .inCells (StackMachine.truth c.taken) s.ram = some ((), ram)) :
    ∃ t : Store, t.ram = ram ∧ Cpu.Steps 6 (s.cpu rom (Lines.size front + 18))
      (t.cpu rom (Lines.size front + 24)) := by
  have loaded := assembled.loaded split
  rw [c.code_fragment number, loaded_append, loaded_append, loaded_append, loaded_append] at loaded
  obtain ⟨-, -, -, -, branch⟩ := loaded
  obtain ⟨t, -, same, steps⟩ := (realizes_pushTruth c.taken).steps branch
    (bind_eq_some.mpr ⟨(), ram, pushes, rfl⟩)
  exact ⟨t, same, steps⟩

/-- Without the branch the other truth value is pushed, and the rest of the block is left out. -/
theorem Comparison.steps_passed (c : Comparison) (number : Nat)
    (assembled : Lines.Assembled lines rom) (split : lines = front ++ c.fragment number ++ back)
    (pushes : push .inCells (StackMachine.truth (! c.taken)) s.ram = some ((), ram)) :
    ∃ t : Store, t.ram = ram ∧ Cpu.Steps 8 (s.cpu rom (Lines.size front + 10))
      (t.cpu rom (Lines.size front + 24)) := by
  obtain ⟨-, endAddress⟩ := c.address_labels number assembled split
  have loaded := assembled.loaded split
  rw [c.code_fragment number, loaded_append, loaded_append, loaded_append, loaded_append] at loaded
  obtain ⟨-, -, falls, skip, -⟩ := loaded
  obtain ⟨t, -, rfl, first⟩ := (realizes_pushTruth (! c.taken)).steps falls
    (bind_eq_some.mpr ⟨(), ram, pushes, rfl⟩)
  obtain ⟨u, same, second⟩ : ∃ u : Store, u.ram = t.ram ∧
      Cpu.Steps 2 (t.cpu rom (Lines.size front + 16))
        (u.jumped rom (Lines.address lines (c.endLabel number))
          (Lines.address lines (c.endLabel number) = Lines.size front + 16)) := steps_goto skip
  rw [endAddress, Store.jumped_of_not (by omega)] at second
  exact ⟨u, same, first.trans second⟩

/-- A comparison ends behind its block, whichever way it branches, and comes to no instruction of it
twice. -/
theorem Comparison.steps (c : Comparison) (number : Nat) {right left : Word} {mid popped : Ram}
    (assembled : Lines.Assembled lines rom) (split : lines = front ++ c.fragment number ++ back)
    (popRight : pop .inCells s.ram = some (right, mid))
    (popLeft : pop .inCells mid = some (left, popped))
    (pushes : push .inCells (StackMachine.truth (c.outcome (right - left))) popped =
      some ((), ram)) :
    ∃ t : Store, t.ram = ram ∧
      Cpu.Steps (if Mnemonic.condition c.condition (right - left) then 16 else 18)
        (s.cpu rom (Lines.size front)) (t.cpu rom (Lines.size front + 24)) := by
  obtain ⟨t, rfl, test⟩ := c.steps_test number assembled split popRight popLeft
  by_cases taken : Mnemonic.condition c.condition (right - left)
  · rw [Comparison.outcome, if_pos taken] at pushes
    rw [if_pos taken] at test ⊢
    obtain ⟨u, same, rest⟩ := c.steps_taken number assembled split pushes
    exact ⟨u, same, test.trans rest⟩
  · rw [Comparison.outcome, if_neg taken] at pushes
    rw [if_neg taken] at test ⊢
    obtain ⟨u, same, rest⟩ := c.steps_passed number assembled split pushes
    exact ⟨u, same, test.trans rest⟩

theorem steps_operator {op : Operator} {number : Nat} (assembled : Lines.Assembled lines rom)
    (split : lines = front ++ operator op number ++ back)
    (run : operate .inCells op s.ram = some ((), ram)) :
    ∃ n ≤ Lines.size (operator op number), ∃ t : Store, t.ram = ram ∧
      Cpu.Steps n (s.cpu rom (Lines.size front))
        (t.cpu rom (Lines.size front + Lines.size (operator op number))) := by
  by_cases comparison : ∃ c, operation op = .comparison c
  · obtain ⟨c, hOp⟩ := comparison
    have body : operator op number = c.fragment number := by
      rw [operator, hOp]
    rw [operate_comparison hOp] at run
    rw [body] at split ⊢
    obtain ⟨right, mid, popRight, run⟩ := bind_eq_some.mp run
    obtain ⟨left, popped, popLeft, pushes⟩ := bind_eq_some.mp run
    obtain ⟨t, same, steps⟩ := c.steps number assembled split popRight popLeft pushes
    refine ⟨_, ?_, t, same, steps⟩
    rw [c.size_fragment]
    split <;> omega
  · have plain : ∀ c, operation op ≠ .comparison c := fun c same => comparison ⟨c, same⟩
    obtain ⟨t, same, steps⟩ := (performs_operator plain).steps (assembled.loaded split) run
    exact ⟨_, Nat.le_refl _, t, same, steps⟩

end Lowering

end HackToolchain
