import HackToolchain.Assembly.Layout
import HackToolchain.Assembly.Mnemonic
import HackToolchain.Machine.Image

/-! Assembling: every instruction of a layout becomes one word. The labels of the whole program
are known before the first word is made, and the remaining symbols become variables on the way. -/

namespace HackToolchain

/-- The bits of a literal. -/
def literalBits (chars : List Char) : Except Defect String :=
  (readLiteral chars).map fun value => Text.bits (BitVec.ofNat 16 value)

/-- The word of an address instruction. -/
def encodeAddress (address : Nat) : Except Defect Word :=
  if address ≤ Platform.maxAddress then .ok (BitVec.ofNat 16 address)
  else .error (.addressTooLarge address)

/-- The word of an instruction and the symbols after it. -/
def SymbolTable.encode (table : SymbolTable) : Instruction → Except Defect (Word × SymbolTable)
  | .address (.literal value) => (encodeAddress value).map (·, table)
  | .address (.symbol name) =>
    let (address, table) := table.resolve name
    (encodeAddress address).map (·, table)
  | .compute dest comp jump => (Mnemonic.encode dest comp jump).map (·, table)

/-- A program in the making: the symbols known so far and the words of the lines before. -/
structure Assembly where
  symbols : SymbolTable
  words : Array Word := #[]

namespace Assembly

def add (assembly : Assembly) (i : Instruction) : Except Defect Assembly :=
  match assembly with
  | ⟨symbols, words⟩ =>
    (symbols.encode i).map fun (word, symbols) => ⟨symbols, words.push word⟩

def ofLayout (layout : Layout) : Except SourceError Assembly :=
  layout.code.foldlM (fun assembly (number, i) => atLine number (assembly.add i))
    { symbols := layout.symbols }

def ofSource (source : String) : Except SourceError Assembly :=
  Layout.ofSource source >>= ofLayout

end Assembly

/-- The machine code of an assembly source, or its first defect: a line that cannot be read or
placed comes before any that cannot be encoded. -/
def assemble (source : String) : Except SourceError Image :=
  (Assembly.ofSource source).map fun assembly => ⟨assembly.words⟩

end HackToolchain
