import HackToolchain.Command.Vocabulary
import HackToolchain.Defect
import HackToolchain.Lowering.Fragment

/-! Where the operand of an access lies, and the transfers between that place and the stack. -/

namespace HackToolchain.Lowering

inductive Location where
  /-- The value itself. -/
  | constant (value : Nat)
  /-- A cell with a name: a pointer register or a static variable. -/
  | named (name : String)
  /-- The cell at an offset from the address that a register holds. -/
  | indirect (base : String) (offset : Nat)
  /-- One of the temp cells. -/
  | temp (offset : Nat)

/-- The symbol of a static variable, which belongs to its file. -/
def staticSymbol (file : String) (index : Nat) : String := file ++ "." ++ toString index

namespace Location

/-- The place of an index of a segment that is not negative. -/
def ofIndex (segment : Segment) (index : Int32) (file : String) : Except Defect Location :=
  let offset := index.toInt.toNat
  match segment with
  | .argument => .ok (.indirect "ARG" offset)
  | .localVar => .ok (.indirect "LCL" offset)
  | .this => .ok (.indirect "THIS" offset)
  | .that => .ok (.indirect "THAT" offset)
  | .pointer =>
    match offset with
    | 0 => .ok (.named "THIS")
    | 1 => .ok (.named "THAT")
    | _ => .error (.pointerIndex index)
  | .temp => if offset < Platform.tempSize then .ok (.temp offset) else .error (.tempIndex index)
  | .constant => .ok (.constant offset)
  | .staticVar => .ok (.named (staticSymbol file offset))

def find (segment : Segment) (index : Int32) (file : String) : Except Defect Location :=
  if index.toInt < 0 then .error (.negativeIndex segment index) else ofIndex segment index file

/-- Computes the address of a temp cell, or of a cell at an offset from a register, and keeps it in
the scratch register. -/
def keepAddress (first second : Line) (sum : String) : Fragment :=
  [first, assign "D" "A", second, assign "D" sum, symbol Platform.addressScratch, assign "M" "D"]

def keepIndirect (base : String) (offset : Nat) : Fragment :=
  keepAddress (literal offset) (symbol base) "D+M"

def keepTemp (offset : Nat) : Fragment :=
  keepAddress (literal Platform.tempBase) (literal offset) "D+A"

/-- Pushes the cell whose address was kept. -/
def pushKept : Fragment :=
  [symbol Platform.addressScratch, assign "A" "M", assign "D" "M"] ++ pushData

/-- Pops into the cell whose address was kept. -/
def popKept : Fragment :=
  popData ++ [symbol Platform.addressScratch, assign "A" "M", assign "M" "D"]

def push : Location → Fragment
  | constant value => [literal value, assign "D" "A"] ++ pushData
  | named name => pushNamed name
  | indirect base offset => keepIndirect base offset ++ pushKept
  | temp offset => keepTemp offset ++ pushKept

/-- A constant cannot be written. -/
def pop : Location → Except Defect Fragment
  | constant _ => .error .popConstant
  | named name => .ok (popData ++ [symbol name, assign "M" "D"])
  | indirect base offset => .ok (keepIndirect base offset ++ popKept)
  | temp offset => .ok (keepTemp offset ++ popKept)

end Location

/-- The lines of an access to a segment. -/
def access (op : StackOp) (segment : Segment) (index : Int32) (file : String) :
    Except Defect Fragment := do
  let location ← Location.find segment index file
  match op with
  | .push => return location.push
  | .pop => location.pop

end HackToolchain.Lowering
