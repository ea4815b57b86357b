import HackToolchain.Proofs.StackMachine.Stack

/-! The operands of accesses to segments, in memory as it is before the access. The cell of an
operand may be any: a register, the cell that its segment starts from, or a cell of the stack. -/

namespace HackToolchain

/-- The segments that are found through a register. -/
def Segment.isIndirect : Segment → Bool
  | .argument | .localVar | .this | .that => true
  | .pointer | .temp | .constant | .staticVar => false

/-- The segments of which an access keeps the address in the scratch register. -/
def Segment.keepsAddress (segment : Segment) : Bool := segment.isIndirect || segment = .temp

namespace StackMachine

variable {statics : String → Nat → Cell} {ram : Ram} {segment : Segment} {index : Nat}
  {file : String} {cell : Cell}

/-- The cell of an operand. A constant has none. -/
def operandCell (statics : String → Nat → Cell) (ram : Ram) (segment : Segment) (index : Nat)
    (file : String) : Option Cell :=
  match segment with
  | .argument => some (cellOf (ram.read arg + BitVec.ofNat 16 index))
  | .localVar => some (cellOf (ram.read lcl + BitVec.ofNat 16 index))
  | .this => some (cellOf (ram.read this + BitVec.ofNat 16 index))
  | .that => some (cellOf (ram.read that + BitVec.ofNat 16 index))
  | .temp => some (BitVec.ofNat 15 (Platform.tempBase + index))
  | .pointer => some (BitVec.ofNat 15 (Platform.thisBase + index))
  | .staticVar => some (statics file index)
  | .constant => none

theorem exists_operandCell (cells : segment ≠ .constant) :
    ∃ cell, operandCell statics ram segment index file = some cell := by
  cases segment with
  | constant => exact absurd rfl cells
  | argument | localVar | this | that | temp | pointer | staticVar => exact ⟨_, rfl⟩

/-- Finding the cell of an operand changes the scratch register at most. -/
theorem segmentCell_of_operandCell
    (operand : operandCell statics ram segment index file = some cell) :
    ∃ kept, segmentCell .inCells statics segment index file ram = some (cell, kept) ∧
      ∀ other, (segment.keepsAddress → other ≠ addressScratch) →
        kept.read other = ram.read other := by
  have keeps : ∀ address : Word, segment.keepsAddress → ∃ kept,
      addressed .inCells address ram = some (cellOf address, kept) ∧
        ∀ other, (segment.keepsAddress → other ≠ addressScratch) →
          kept.read other = ram.read other := by
    intro address keeps
    refine ⟨_, rfl, fun other free => ?_⟩
    rw [Ram.read_write, if_neg (free keeps).symm]
  cases segment with
  | argument | localVar | this | that =>
    cases operand
    exact keeps _ rfl
  | temp =>
    cases operand
    rw [← cellOf_ofNat]
    exact keeps _ rfl
  | pointer | staticVar =>
    cases operand
    exact ⟨ram, rfl, fun _ _ => rfl⟩
  | constant => cases operand

/-! ### Pushes -/

/-- The word that a push puts on the stack. -/
def operand (statics : String → Nat → Cell) (ram : Ram) (segment : Segment) (index : Nat)
    (file : String) : Word :=
  (operandCell statics ram segment index file).elim (BitVec.ofNat 16 index) ram.read

theorem access_push (apart : cellOf (ram.read sp) ≠ sp)
    (free : segment.keepsAddress →
      operandCell statics ram segment index file ≠ some addressScratch) :
    ∃ after, access .inCells statics .push segment index file ram = some ((), after) ∧
      OnTop (ram.read sp) (operand statics ram segment index file) segment.keepsAddress ram
        after := by
  rw [access]
  split
  · next constant =>
    subst constant
    exact onTop_push rfl apart fun _ _ _ => rfl
  · next cells =>
    obtain ⟨cell, found⟩ : ∃ cell, operandCell statics ram segment index file = some cell :=
      exists_operandCell cells
    obtain ⟨kept, finds, same⟩ := segmentCell_of_operandCell found
    have value : kept.read cell = operand statics ram segment index file := by
      rw [operand, found, Option.elim_some]
      exact same cell fun keeps scratch => free keeps (scratch ▸ found)
    have pointer : kept.read sp = ram.read sp := same sp fun _ => by decide
    rw [run_bind finds, run_bind (run_load cell kept), value]
    exact onTop_push pointer apart fun other _ unused => same other unused

/-! ### Pops -/

/-- The memory after the top of the stack was stored in a cell, which happens last: that cell may be
the stack pointer or the scratch register. -/
structure Stored (below : Word) (cell : Cell) (value : Word) (scratch : Bool) (before after : Ram) :
    Prop where
  pointer : cell ≠ sp → after.read sp = below
  stored : after.read cell = value
  others : ∀ other, other ≠ sp → other ≠ cell → (scratch → other ≠ addressScratch) →
    after.read other = before.read other

theorem access_pop (operand : operandCell statics ram segment index file = some cell)
    (apart : cellOf (ram.read sp - 1) ≠ sp)
    (free : segment.keepsAddress → cellOf (ram.read sp - 1) ≠ addressScratch) :
    ∃ after, access .inCells statics .pop segment index file ram = some ((), after) ∧
      Stored (ram.read sp - 1) cell (ram.read (cellOf (ram.read sp - 1))) segment.keepsAddress ram
        after := by
  obtain ⟨kept, finds, same⟩ := segmentCell_of_operandCell operand
  have pointer : kept.read sp = ram.read sp := same sp fun _ => by decide
  have popped := pop_eq (pointer ▸ apart)
  rw [pointer, same _ free] at popped
  have run : access .inCells statics .pop segment index file ram = some ((),
      (kept.write sp (ram.read sp - 1)).write cell (ram.read (cellOf (ram.read sp - 1)))) := by
    rw [access, run_bind finds, run_bind popped, run_store]
  refine ⟨_, run, fun apart => ?_, ?_, fun other register own unused => ?_⟩
  · rw [Ram.read_write, if_neg apart, Ram.read_write, if_pos rfl]
  · rw [Ram.read_write, if_pos rfl]
  · rw [Ram.read_write, if_neg own.symm, Ram.read_write, if_neg register.symm, same other unused]

end StackMachine

end HackToolchain
