import HackToolchain.Command.Vocabulary
import HackToolchain.Lowering.Fragment

/-! Operators on the words on top of the stack. A comparison takes the sign of the difference of
its operands and jumps on it; it needs two labels, which carry one number. -/

namespace HackToolchain.Lowering

/-- How a comparison decides: the difference is right minus left, and the jump pushes `taken`. -/
structure Comparison where
  branchStem : String
  endStem : String
  condition : String
  taken : Bool

def Comparison.equal : Comparison := ⟨"NOT_EQUAL", "END_EQUAL", "JNE", false⟩

/-- A negative difference means that the left operand is greater. -/
def Comparison.greater : Comparison := ⟨"GREATER", "END_GREATER", "JLT", true⟩

/-- A difference that is not positive means that the left operand is not less. -/
def Comparison.less : Comparison := ⟨"NOT_LESS", "END_LESS", "JLE", false⟩

/-- The computation of a truth value: all ones for true. -/
def truth (b : Bool) : String := if b then "-1" else "0"

/-- A label that is made of a stem and a number. -/
def numbered (stem : String) (number : Nat) : String := stem ++ "_" ++ toString number

namespace Comparison

def branchLabel (c : Comparison) (number : Nat) : String := numbered c.branchStem number

def endLabel (c : Comparison) (number : Nat) : String := numbered c.endStem number

def fragment (c : Comparison) (number : Nat) : Fragment :=
  popData ++ popThrough "D-M" ++
    [symbol (c.branchLabel number), jump "D" c.condition, assign "D" (truth (! c.taken))] ++
    pushData ++
    [symbol (c.endLabel number), jump "0" "JMP", .label (c.branchLabel number),
      assign "D" (truth c.taken)] ++
    pushData ++ [.label (c.endLabel number)]

end Comparison

/-- What an operator does with its operands. -/
inductive Operation where
  | binary (comp : String)
  | unary (comp : String)
  | comparison (c : Comparison)

def operation : Operator → Operation
  | .add => .binary "D+M"
  | .sub => .binary "M-D"
  | .and => .binary "D&M"
  | .or => .binary "D|M"
  | .neg => .unary "-M"
  | .not => .unary "!M"
  | .eq => .comparison .equal
  | .gt => .comparison .greater
  | .lt => .comparison .less

/-- The lines of an operator; a comparison numbers its labels. -/
def operator (op : Operator) (number : Nat) : Fragment :=
  match operation op with
  | .binary comp => popData ++ popThrough comp ++ pushData
  | .unary comp => popThrough comp ++ pushData
  | .comparison c => c.fragment number

end HackToolchain.Lowering
