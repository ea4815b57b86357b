import HackToolchain.Defect
import HackToolchain.Text.Number

/-! Lines of assembly: address instructions, compute instructions and label declarations, with
their text and its reading. A compute instruction keeps its three parts as they are spelled, since
a misspelled one is a fault of its encoding and not of its shape. -/

namespace HackToolchain

inductive Operand where
  | literal (value : Nat)
  | symbol (name : String)
deriving DecidableEq

inductive Instruction where
  | address (operand : Operand)
  | compute (dest comp jump : String)
deriving DecidableEq

inductive Line where
  | instruction (instruction : Instruction)
  | label (name : String)
deriving DecidableEq

namespace Operand

def text : Operand → String
  | literal value => toString value
  | symbol name => name

end Operand

namespace Instruction

def text : Instruction → String
  | address operand => "@" ++ operand.text
  | compute dest comp jump =>
    (if dest.isEmpty then "" else dest ++ "=") ++ comp ++
      (if jump.isEmpty then "" else ";" ++ jump)

end Instruction

namespace Line

def text : Line → String
  | instruction i => i.text
  | label name => "(" ++ name ++ ")"

/-- A label declares an address and takes no place in the program. -/
def instruction? : Line → Option Instruction
  | instruction i => some i
  | label _ => none

end Line

/-! ### Reading -/

def isSymbolChar (c : Char) : Bool := c.isAlphanum || ['_', '.', '$', ':'].contains c

/-- A symbol is not empty, starts with no digit, and is made of ASCII letters, digits and four
marks. -/
def isSymbol : List Char → Bool
  | [] => false
  | c :: rest => ! c.isDigit && (c :: rest).all isSymbolChar

def readSymbol (chars : List Char) : Except Defect String :=
  if isSymbol chars then .ok (String.ofList chars)
  else .error (.invalidSymbol (String.ofList chars))

/-- The value of a decimal literal that fits in a word. -/
def readLiteral (chars : List Char) : Except Defect Nat :=
  match Text.natural? chars with
  | some value =>
    if value < 65536 then .ok value else .error (.invalidLiteral (String.ofList chars))
  | none => .error (.invalidLiteral (String.ofList chars))

/-- What follows the at sign of an address instruction: a literal if it starts with a digit. -/
def Operand.read (chars : List Char) : Except Defect Operand :=
  match chars.head? with
  | some c =>
    if c.isDigit then (readLiteral chars).map .literal else (readSymbol chars).map .symbol
  | none => (readSymbol chars).map .symbol

/-- The text before and after the first `mark`, if there is one. -/
def cut? (mark : Char) (chars : List Char) : Option (List Char × List Char) :=
  match chars.dropWhile (· != mark) with
  | [] => none
  | _ :: rest => some (chars.takeWhile (· != mark), rest)

namespace Line

/-- The name between the parentheses of a label declaration; `inner` follows the first. -/
def readLabel (inner : List Char) : Except Defect Line :=
  if inner.getLast? = some ')' then (readSymbol inner.dropLast).map .label
  else .error (.unterminatedLabel (String.ofList ('(' :: inner)))

def readCompute (chars : List Char) : Except Defect Instruction :=
  let (dest, rest) := (cut? '=' chars).getD ([], chars)
  let (comp, jump) := (cut? ';' rest).getD (rest, [])
  if comp.isEmpty then .error (.missingComputation (String.ofList chars))
  else .ok (.compute (String.ofList dest) (String.ofList comp) (String.ofList jump))

/-- Reads a line without comments and white space. -/
def read : List Char → Except Defect Line
  | '@' :: operand => (Operand.read operand).map fun operand => .instruction (.address operand)
  | '(' :: inner => readLabel inner
  | chars => (readCompute chars).map .instruction

end Line

end HackToolchain
