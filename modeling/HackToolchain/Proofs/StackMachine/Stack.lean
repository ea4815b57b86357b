import HackToolchain.Proofs.StackMachine.Memory

/-! The stack at any place of memory. The stack pointer is a word, which wraps, and names a cell by
its lower bits; all that is asked is that the cells in use are not that of the stack pointer. -/

namespace HackToolchain.StackMachine

variable {ram : Ram}

/-! ### Pushes and pops -/

theorem push_eq (value : Word) (apart : cellOf (ram.read sp) ≠ sp) :
    push .inCells value ram =
      some ((), (ram.write (cellOf (ram.read sp)) value).write sp (ram.read sp + 1)) := by
  simp only [push, bind_apply, run_load, run_store, Option.bind_some, Ram.read_write,
    if_neg apart]

theorem pop_eq (apart : cellOf (ram.read sp - 1) ≠ sp) :
    pop .inCells ram =
      some (ram.read (cellOf (ram.read sp - 1)), ram.write sp (ram.read sp - 1)) := by
  simp only [pop, bind_apply, run_load, run_store, Option.bind_some, Ram.read_write, if_true,
    if_neg apart.symm]

/-! ### The word on top -/

/-- The memory with a word put in the cell of a stack pointer, which is behind it then. No other
cell has changed, but for the scratch register if that was used. -/
structure OnTop (below value : Word) (scratch : Bool) (before after : Ram) : Prop where
  pointer : after.read sp = below + 1
  top : after.read (cellOf below) = value
  others : ∀ cell, cell ≠ sp → cell ≠ cellOf below → (scratch → cell ≠ addressScratch) →
    after.read cell = before.read cell

theorem onTop_push {below value : Word} {scratch : Bool} {before : Ram}
    (pointer : ram.read sp = below) (apart : cellOf below ≠ sp)
    (same : ∀ cell, cell ≠ sp → (scratch → cell ≠ addressScratch) →
      ram.read cell = before.read cell) :
    ∃ after, push .inCells value ram = some ((), after) ∧
      OnTop below value scratch before after := by
  subst pointer
  refine ⟨_, push_eq value apart, ?_, ?_, fun cell register free unused => ?_⟩
  · rw [Ram.read_write, if_pos rfl]
  · rw [Ram.read_write, if_neg apart.symm, Ram.read_write, if_pos rfl]
  · rw [Ram.read_write, if_neg register.symm, Ram.read_write, if_neg free.symm,
      same cell register unused]

/-! ### Operands -/

/-- The two upper words of the stack are taken off. -/
theorem pop_pop (upper : cellOf (ram.read sp - 1) ≠ sp) (lower : cellOf (ram.read sp - 2) ≠ sp) :
    ∃ mid popped, pop .inCells ram = some (ram.read (cellOf (ram.read sp - 1)), mid) ∧
      pop .inCells mid = some (ram.read (cellOf (ram.read sp - 2)), popped) ∧
      popped.read sp = ram.read sp - 2 ∧
      ∀ cell, cell ≠ sp → popped.read cell = ram.read cell := by
  have down : ram.read sp - 1 - 1 = ram.read sp - 2 := by
    rw [BitVec.sub_sub]
    rfl
  obtain ⟨mid, hMid⟩ : ∃ mid, mid = ram.write sp (ram.read sp - 1) := ⟨_, rfl⟩
  have pointer : mid.read sp - 1 = ram.read sp - 2 := by
    rw [hMid, Ram.read_write, if_pos rfl, down]
  have others : ∀ cell, cell ≠ sp → mid.read cell = ram.read cell := by
    intro cell register
    rw [hMid, Ram.read_write, if_neg register.symm]
  refine ⟨mid, mid.write sp (ram.read sp - 2), hMid ▸ pop_eq upper, ?_, ?_,
    fun cell register => ?_⟩
  · rw [pop_eq (pointer ▸ lower), pointer, others _ lower]
  · rw [Ram.read_write, if_pos rfl]
  · rw [Ram.read_write, if_neg register.symm, others cell register]

end HackToolchain.StackMachine
