import HackToolchain.Lowering.Operator

/-! Functions and their frames. A call saves the return address and four registers above the
arguments; a return puts the result in place of the first argument and takes the frame down. -/

namespace HackToolchain.Lowering

def pushZero : Fragment := [literal 0, assign "D" "A"] ++ pushData

/-- The entry of a function clears its local variables. -/
def function (name : String) (locals : Nat) : Fragment :=
  .label name :: (List.replicate locals pushZero).flatten

/-- The label that a call returns to. -/
def returnLabel (name : String) (number : Nat) : String := name ++ "$ret." ++ toString number

/-- Stores the data register in a named cell. -/
def store (name : String) : Fragment := [symbol name, assign "M" "D"]

/-- The arguments start below the frame and the local variables above it. -/
def call (name : String) (args number : Nat) : Fragment :=
  [symbol (returnLabel name number), assign "D" "A"] ++ pushData ++
    Platform.savedRegisters.flatMap pushNamed ++
    [symbol "SP", assign "D" "M", literal (args + Platform.frameSize), assign "D" "D-A"] ++
    store "ARG" ++ [symbol "SP", assign "D" "M"] ++ store "LCL" ++
    [symbol name, jump "0" "JMP", .label (returnLabel name number)]

/-- Moves the kept frame pointer one cell down and restores a register from there. -/
def restore (register : String) : Fragment :=
  [symbol Platform.addressScratch, assign "AM" "M-1", assign "D" "M"] ++ store register

/-- The return address is taken out of the frame before the result is stored, because without
arguments the result takes its cell. -/
def ret : Fragment :=
  [symbol "LCL", assign "D" "M"] ++ store Platform.addressScratch ++
    [literal Platform.frameSize, assign "A" "D-A", assign "D" "M"] ++
    store Platform.returnScratch ++
    popData ++ [symbol "ARG", assign "A" "M", assign "M" "D"] ++
    [symbol "ARG", assign "D" "M+1"] ++ store "SP" ++
    Platform.savedRegisters.reverse.flatMap restore ++
    [symbol Platform.returnScratch, assign "A" "M", jump "0" "JMP"]

/-- Sets up the stack and calls the entry function. -/
def bootstrap (number : Nat) : Fragment :=
  [literal Platform.stackBase, assign "D" "A"] ++ store "SP" ++
    call Platform.entryFunction 0 number

def endLabel (number : Nat) : String := numbered "END_PROGRAM" number

/-- The loop that a program ends in. -/
def endLoop (number : Nat) : Fragment :=
  [.label (endLabel number), symbol (endLabel number), jump "0" "JMP"]

end HackToolchain.Lowering
