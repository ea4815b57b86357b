import HackToolchain.Command.Basic
import HackToolchain.Defect
import HackToolchain.Text.Lines
import HackToolchain.Text.Number

/-! Reading commands from source text, one command a line. A line is checked from left to right,
except that the number of its operands comes first. -/

namespace HackToolchain

def Operator.read (text : String) : Except Defect Operator :=
  (Operator.ofText? text).elim (.error (.unknownOperator text)) .ok

def StackOp.read (text : String) : Except Defect StackOp :=
  (StackOp.ofText? text).elim (.error (.unknownStackOp text)) .ok

def Segment.read (text : String) : Except Defect Segment :=
  (Segment.ofText? text).elim (.error (.unknownSegment text)) .ok

namespace Command

/-- A number operand, read by `parse?`. -/
def readNumber {α : Type} (parse? : List Char → Option α) (token : String) : Except Defect α :=
  (parse? token.toList).elim (.error (.invalidNumber token)) .ok

def readAccess (op : StackOp) (file : String) (operands : List String) :
    Except Defect Command :=
  match operands with
  | [segment, index] => do
    let segment ← Segment.read segment
    let index ← readNumber Text.int32? index
    return .access op segment index file
  | _ => .error (.operandCount op.keyword 2 operands.length)

def readName (keyword : String) (make : String → Command) (operands : List String) :
    Except Defect Command :=
  match operands with
  | [name] => .ok (make name)
  | _ => .error (.operandCount keyword 1 operands.length)

def readCounted (keyword : String) (make : String → UInt16 → Command) (operands : List String) :
    Except Defect Command :=
  match operands with
  | [name, count] => (readNumber Text.uint16? count).map (make name)
  | _ => .error (.operandCount keyword 2 operands.length)

/-- A word that starts no other command is the name of an operator. -/
def readOperator (keyword : String) (operands : List String) : Except Defect Command :=
  match operands with
  | [] => (Operator.read keyword).map .operator
  | _ => .error (.operandCount keyword 0 operands.length)

def readReturn (operands : List String) : Except Defect Command :=
  match operands with
  | [] => .ok .ret
  | _ => .error (.operandCount "return" 0 operands.length)

/-- The command that a line spells, from its first word and the words after it. -/
def read (file keyword : String) (operands : List String) : Except Defect Command :=
  match keyword with
  | "push" => readAccess .push file operands
  | "pop" => readAccess .pop file operands
  | "label" => readName keyword .label operands
  | "goto" => readName keyword .goto operands
  | "if-goto" => readName keyword .ifGoto operands
  | "function" => readCounted keyword .function operands
  | "call" => readCounted keyword .call operands
  | "return" => readReturn operands
  | _ => readOperator keyword operands

/-- The lines of a source text that hold a command: the number of each, its first word and the
words after it. -/
def sourceLines (source : String) : List (Nat × String × List String) :=
  (Text.numberedCode source).filterMap fun (number, code) =>
    match (Text.words code).map String.ofList with
    | [] => none
    | keyword :: operands => some (number, keyword, operands)

/-- The commands of a source text, or its first defect. -/
def parse (source file : String) : Except SourceError (List Command) :=
  (sourceLines source).mapM fun (number, keyword, operands) =>
    atLine number (read file keyword operands)

end Command

end HackToolchain
