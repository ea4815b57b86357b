import HackToolchain.Assembly.Line

/-! Assembly programs as they are written: a block of lines for each command, between two comments
that name it. -/

namespace HackToolchain

structure Block where
  title : String
  body : List Line

namespace Block

def lines (block : Block) : List String :=
  ("// begin " ++ block.title) :: block.body.map Line.text ++ ["// end " ++ block.title]

def instructions (block : Block) : List Instruction := block.body.filterMap Line.instruction?

@[simp] theorem length_lines (block : Block) : block.lines.length = block.body.length + 2 := by
  simp [lines]

end Block

/-- Each line with a line feed after it. -/
def unlines (lines : List String) : String := String.join (lines.map (· ++ "\n"))

def Block.text (block : Block) : String := unlines block.lines

structure Program where
  blocks : List Block := []

namespace Program

def lines (program : Program) : List String := program.blocks.flatMap Block.lines

def text (program : Program) : String := unlines program.lines

def append (program : Program) (block : Block) : Program := ⟨program.blocks ++ [block]⟩

@[simp] theorem lines_append (program : Program) (block : Block) :
    (program.append block).lines = program.lines ++ block.lines := by
  simp [lines, append]

end Program

end HackToolchain
