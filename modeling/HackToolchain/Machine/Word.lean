/-! Machine words, and the memory cells that they address. -/

namespace HackToolchain

/-- A machine word. -/
abbrev Word := BitVec 16

/-- The address of a memory cell. -/
abbrev Cell := BitVec 15

/-- The cell that a word addresses: its highest bit does not count. -/
def cellOf (word : Word) : Cell := word.setWidth 15

end HackToolchain
