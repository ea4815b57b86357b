import HackToolchain.Assembly.Line
import HackToolchain.Assembly.Symbols
import HackToolchain.Text.Lines

/-! The layout of an assembly program: its instruction lines in order, so that a line's address is
the number of instruction lines before it, and the labels that are declared between them. -/

namespace HackToolchain

structure Layout where
  symbols : SymbolTable := {}
  /-- The instructions with their line numbers in the source. -/
  code : Array (Nat × Instruction) := #[]

namespace Layout

/-- The number of instruction lines that the address space of the ROM has room for. -/
def capacity : Nat := 65535

/-- The lines of a source that are not blank, without comments and white space. -/
def sourceLines (source : String) : List (Nat × List Char) :=
  ((Text.numberedCode source).map fun (number, code) => (number, Text.unspaced code)).filter
    fun (_, code) => ! code.isEmpty

/-- Adds a line: a label gets the address of the next instruction. -/
def add (layout : Layout) (number : Nat) (line : Line) : Except Defect Layout :=
  match line with
  | .label name =>
    (layout.symbols.define name layout.code.size).map fun symbols => { layout with symbols }
  | .instruction i =>
    if layout.code.size < capacity then
      .ok { layout with code := layout.code.push (number, i) }
    else .error .romFull

def addText (layout : Layout) (number : Nat) (text : List Char) : Except Defect Layout :=
  Line.read text >>= layout.add number

def ofSource (source : String) : Except SourceError Layout :=
  (sourceLines source).foldlM (fun layout (number, text) =>
    atLine number (layout.addText number text)) {}

end Layout

end HackToolchain
