import HackToolchain.Command.Vocabulary
import HackToolchain.Text.Quoted
import HackToolchain.Platform

/-! What can be wrong with a command or with a line of assembly, and where. The wording of every
report is here, so the rest of the library only names causes. -/

namespace HackToolchain

/-- The three parts of a compute instruction. -/
inductive Field where
  | destination | computation | jump
deriving DecidableEq

def Field.name : Field → String
  | .destination => "destination"
  | .computation => "computation"
  | .jump => "jump"

inductive Defect where
  | unknownOperator (text : String)
  | unknownSegment (text : String)
  | unknownStackOp (text : String)
  | operandCount (keyword : String) (expected given : Nat)
  | invalidNumber (token : String)
  | negativeIndex (segment : Segment) (index : Int32)
  | tempIndex (index : Int32)
  | pointerIndex (index : Int32)
  | popConstant
  | unknownMnemonic (field : Field) (text : String)
  | invalidLiteral (text : String)
  | addressTooLarge (address : Nat)
  | labelInUse (name : String) (address : Nat)
  | unterminatedLabel (line : String)
  | invalidSymbol (name : String)
  | missingComputation (line : String)
  | romFull
  /-- A session has no number left for a label. -/
  | numbersSpent
deriving DecidableEq

def Defect.message : Defect → String
  | unknownOperator text => s!"Unknown arithmetic/logical operator: {text}"
  | unknownSegment text => s!"Unknown memory segment: {text}"
  | unknownStackOp text => s!"Inappropriate stack operation: {text} (expected push or pop)"
  | operandCount keyword expected given =>
    s!"'{keyword}' expects {expected} operand(s), got {given}"
  | invalidNumber token => s!"invalid number '{token}'"
  | negativeIndex segment index =>
    s!"Segment index cannot be negative: {segment.name} {index.toInt}"
  | tempIndex index =>
    s!"Temp index {index.toInt} is outside of the range 0..={Platform.tempSize - 1}"
  | pointerIndex index => s!"Pointer index {index.toInt} is outside of the range 0..=1"
  | popConstant => "The constant segment only supports push"
  | unknownMnemonic field text => s!"Unknown {field.name} mnemonic: {Text.quoted text}"
  | invalidLiteral text => s!"Literal {Text.quoted text} does not fit in an unsigned 16-bit word"
  | addressTooLarge address =>
    s!"Address {address} does not fit in an A-instruction (max {Platform.maxAddress})"
  | labelInUse name address =>
    s!"Label {Text.quoted name} is already defined at ROM address {address}"
  | unterminatedLabel line => s!"unterminated label '{line}'"
  | invalidSymbol name => s!"invalid symbol '{name}'"
  | missingComputation line => s!"missing computation in '{line}'"
  | romFull => "program does not fit in ROM"
  | numbersSpent => "attempt to add with overflow"

/-- A defect of a source text, with the number of its line. -/
structure SourceError where
  line : Nat
  defect : Defect
deriving DecidableEq

def SourceError.message (e : SourceError) : String := s!"Line {e.line}: {e.defect.message}"

/-- Places the defect of a failed step at a line. -/
def atLine {α : Type} (line : Nat) : Except Defect α → Except SourceError α :=
  Except.mapError (SourceError.mk line)

end HackToolchain
