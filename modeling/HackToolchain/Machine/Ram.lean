import HackToolchain.Machine.Word

/-! Data memory: one word for each of the 32768 cells. -/

namespace HackToolchain

structure Ram where
  cells : Vector Word 32768

namespace Ram

def zeroed : Ram := ⟨Vector.replicate 32768 0⟩

def read (ram : Ram) (cell : Cell) : Word := ram.cells.get cell.toFin

def write (ram : Ram) (cell : Cell) (value : Word) : Ram :=
  ⟨ram.cells.set cell.toNat value cell.isLt⟩

theorem read_zeroed (cell : Cell) : zeroed.read cell = 0 := by
  simp [zeroed, read, Vector.get]

theorem read_write (ram : Ram) (cell other : Cell) (value : Word) :
    (ram.write cell value).read other = if cell = other then value else ram.read other := by
  show (ram.cells.set cell.toNat value cell.isLt)[other.toNat] =
    if cell = other then value else ram.cells[other.toNat]
  simp [Vector.getElem_set, BitVec.toNat_inj]

/-- Memories with the same words in all cells are equal. -/
@[ext] theorem ext {ram other : Ram} (h : ∀ cell, ram.read cell = other.read cell) :
    ram = other := by
  cases ram with | mk cells =>
  cases other with | mk cells' =>
  congr
  apply Vector.ext
  intro i hi
  have same := h (BitVec.ofFin ⟨i, hi⟩)
  exact same

end Ram

end HackToolchain
