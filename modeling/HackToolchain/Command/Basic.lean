import HackToolchain.Command.Vocabulary

/-! Commands of the stack machine and their canonical text. -/

namespace HackToolchain

/-- A command. An access knows the file that it was written in, because static cells belong to
files. -/
inductive Command where
  | operator (op : Operator)
  | access (op : StackOp) (segment : Segment) (index : Int32) (file : String)
  | label (name : String)
  | goto (name : String)
  | ifGoto (name : String)
  | function (name : String) (locals : UInt16)
  | call (name : String) (args : UInt16)
  | ret
deriving DecidableEq

/-- The words of a command's canonical text. -/
def Command.words : Command → List String
  | operator op => [op.mnemonic]
  | access op segment index _ => [op.keyword, segment.name, toString index.toInt]
  | label name => ["label", name]
  | goto name => ["goto", name]
  | ifGoto name => ["if-goto", name]
  | function name locals => ["function", name, toString locals.toNat]
  | call name args => ["call", name, toString args.toNat]
  | ret => ["return"]

/-- The canonical text of a command: its words with one space between them. -/
def Command.text (c : Command) : String := " ".intercalate c.words

end HackToolchain
