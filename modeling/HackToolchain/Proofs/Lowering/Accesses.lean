import HackToolchain.Proofs.Lowering.Realization

/-! The code of accesses to segments. An address is computed, kept in the scratch register and used
from there, which is a plain access to its cell. -/

namespace HackToolchain.Lowering

open StackMachine

variable {lines : List Line}

/-! ### Places -/

theorem realizes_push_constant (value : Nat) :
    Realizes lines (Location.constant value).push fun _ => do
      push .inCells (BitVec.ofNat 16 value)
      return BitVec.ofNat 16 value := by
  refine ((realizes_literal value "A" (fun _ a => a) fun _ _ _ => rfl).append
    realizes_pushData).congr fun d => ?_
  rw [pure_bind]

theorem realizes_popNamed (name : String) :
    Realizes lines (popData ++ store name) fun _ => do
      let value ← pop .inCells
      StackMachine.store .inCells (Lines.cell lines name) value
      return value :=
  realizes_popData.append (realizes_store name)

theorem realizes_keepIndirect (base : String) (index : Nat) :
    Realizes lines (Location.keepIndirect base index) fun _ => do
      let address ← offset .inCells (Lines.cell lines base) index
      StackMachine.store .inCells addressScratch address
      return address := by
  refine (((realizes_literal index "A" (fun _ a => a) fun _ _ _ => rfl).append
    (realizes_symbol base "D+M" (fun d m => m + d) fun d a m => BitVec.add_comm d m)).append
    (realizes_store Platform.addressScratch)).congr fun d => ?_
  simp [offset]

theorem realizes_keepTemp (index : Nat) :
    Realizes lines (Location.keepTemp index) fun _ => do
      let address ← pure (BitVec.ofNat 16 (Platform.tempBase + index))
      StackMachine.store .inCells addressScratch address
      return address := by
  refine (((realizes_literal Platform.tempBase "A" (fun _ a => a) fun _ _ _ => rfl).append
    (realizes_literal index "D+A" (fun d a => d + a) fun _ _ _ => rfl)).append
    (realizes_store Platform.addressScratch)).congr fun d => ?_
  simp [BitVec.ofNat_add]

/-! ### Kept addresses -/

theorem store_then_load {α : Type} (cell : Cell) (value : Word) (k : Word → Memory α) :
    (do StackMachine.store .inCells cell value; k (← load .inCells cell)) =
      (do StackMachine.store .inCells cell value; k value) := by
  funext ram
  simp [bind_apply, Ram.read_write]

/-- Popping leaves every cell but the stack pointer alone. -/
theorem store_then_pop_load {α : Type} {cell : Cell} (value : Word) (h : sp ≠ cell)
    (k : Word → Word → Memory α) :
    (do
      StackMachine.store .inCells cell value
      let top ← pop .inCells
      k top (← load .inCells cell)) =
      (do
        StackMachine.store .inCells cell value
        let top ← pop .inCells
        k top value) := by
  funext ram
  simp [bind_apply, pop, Ram.read_write, h]

theorem realizes_pushKept :
    Realizes lines Location.pushKept fun _ => do
      let value ← load .inCells (cellOf (← load .inCells addressScratch))
      push .inCells value
      return value := by
  refine ((realizes_fetchThrough Platform.addressScratch).append
    realizes_pushData).congr fun d => ?_
  simp

theorem realizes_popKept :
    Realizes lines Location.popKept fun _ => do
      let value ← pop .inCells
      StackMachine.store .inCells (cellOf (← load .inCells addressScratch)) value
      return value := by
  refine (realizes_popData.append
    (realizes_storeThrough Platform.addressScratch)).congr fun d => ?_
  simp

/-- An access to a cell whose address was put in the scratch register before. -/
theorem Realizes.pushAt {fragment : Fragment} {address : Memory Word}
    (h : Realizes lines fragment fun _ => do
      let address ← address
      StackMachine.store .inCells addressScratch address
      return address) :
    Realizes lines (fragment ++ Location.pushKept) fun _ => do
      let cell ← addressed .inCells (← address)
      let value ← load .inCells cell
      push .inCells value
      return value := by
  refine (h.append realizes_pushKept).congr fun d => ?_
  simp only [addressed, keep, bind_assoc, pure_bind]
  congr 1
  funext address
  exact store_then_load addressScratch address _

theorem Realizes.popAt {fragment : Fragment} {address : Memory Word}
    (h : Realizes lines fragment fun _ => do
      let address ← address
      StackMachine.store .inCells addressScratch address
      return address) :
    Realizes lines (fragment ++ Location.popKept) fun _ => do
      let cell ← addressed .inCells (← address)
      let value ← pop .inCells
      StackMachine.store .inCells cell value
      return value := by
  refine (h.append realizes_popKept).congr fun d => ?_
  simp only [addressed, keep, bind_assoc, pure_bind]
  congr 1
  funext address
  exact store_then_pop_load address (by decide) _

/-! ### Accesses -/

/-- The cell that a location names; a constant has none. -/
def Location.cell (lines : List Line) : Location → Memory Cell
  | constant _ => failure
  | named name => return Lines.cell lines name
  | indirect base index => StackMachine.indirect .inCells (Lines.cell lines base) index
  | temp index => addressed .inCells (BitVec.ofNat 16 (Platform.tempBase + index))

theorem performs_push {location : Location} (h : ∀ value, location ≠ .constant value) :
    Performs lines location.push (do
      let cell ← location.cell lines
      push .inCells (← load .inCells cell)) := by
  cases location with
  | constant value => exact absurd rfl (h value)
  | named name => exact (realizes_pushNamed name).performs fun d => by simp [Location.cell]
  | indirect base index =>
    exact (Realizes.pushAt (realizes_keepIndirect base index)).performs fun d => by
      simp [Location.cell, StackMachine.indirect]
  | temp index =>
    exact (Realizes.pushAt (realizes_keepTemp index)).performs fun d => by simp [Location.cell]

theorem performs_pop {location : Location} {body : Fragment} (h : location.pop = .ok body) :
    Performs lines body (do
      let cell ← location.cell lines
      StackMachine.store .inCells cell (← pop .inCells)) := by
  cases location with
  | constant value => cases h
  | named name =>
    cases h
    exact (realizes_popNamed name).performs fun d => by simp [Location.cell]
  | indirect base index =>
    cases h
    exact (Realizes.popAt (realizes_keepIndirect base index)).performs fun d => by
      simp [Location.cell, StackMachine.indirect]
  | temp index =>
    cases h
    exact (Realizes.popAt (realizes_keepTemp index)).performs fun d => by simp [Location.cell]

/-- The cells of static variables are those of their symbols. -/
def statics (lines : List Line) (file : String) (index : Nat) : Cell :=
  Lines.cell lines (staticSymbol file index)

theorem segmentCell_of_find {segment : Segment} {index : Int32} {file : String}
    {location : Location} (h : Location.find segment index file = .ok location) :
    segmentCell .inCells (statics lines) segment index.toInt.toNat file = location.cell lines := by
  obtain ⟨-, h⟩ := Location.find_eq_ok.mp h
  cases segment with
  | argument | localVar | this | that =>
    cases h
    simp [segmentCell, Location.cell]
  | pointer =>
    simp only [Location.ofIndex] at h
    split at h
    · next zero =>
      cases h
      rw [zero]
      simp [segmentCell, Location.cell, StackMachine.this]
    · next one =>
      cases h
      rw [one]
      simp [segmentCell, Location.cell, StackMachine.that]
      rfl
    · cases h
  | temp =>
    simp only [Location.ofIndex] at h
    split at h
    · cases h
      rfl
    · cases h
  | constant | staticVar =>
    cases h
    rfl

theorem Location.eq_constant_of_find {segment : Segment} {index : Int32} {file : String}
    {value : Nat} (h : Location.find segment index file = .ok (.constant value)) :
    segment = .constant := by
  obtain ⟨-, h⟩ := Location.find_eq_ok.mp h
  cases segment with
  | constant => rfl
  | argument | localVar | this | that | staticVar => cases h
  | pointer | temp =>
    simp only [Location.ofIndex] at h
    split at h <;> cases h

theorem performs_access {op : StackOp} {segment : Segment} {index : Int32} {file : String}
    {body : Fragment} (h : Lowering.access op segment index file = .ok body) :
    Performs lines body
      (StackMachine.access .inCells (statics lines) op segment index.toInt.toNat file) := by
  obtain ⟨location, found, transfer⟩ := access_eq_ok.mp h
  have same : segmentCell .inCells (statics lines) segment index.toInt.toNat file =
      location.cell lines := segmentCell_of_find found
  cases op with
  | push =>
    rw [StackMachine.access, same, transfer]
    split
    · next constant =>
      subst constant
      obtain ⟨-, found⟩ := Location.find_eq_ok.mp found
      cases found
      exact (realizes_push_constant index.toInt.toNat).performs fun d => by simp
    · next cell =>
      apply performs_push
      rintro value rfl
      exact cell (Location.eq_constant_of_find found)
  | pop =>
    rw [StackMachine.access, same]
    exact performs_pop transfer

end HackToolchain.Lowering
