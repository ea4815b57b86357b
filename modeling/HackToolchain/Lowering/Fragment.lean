import HackToolchain.Assembly.Line
import HackToolchain.Platform

/-! The fragments of assembly that every command is made of: single lines, and the transfers
between the data register and the top of the stack. -/

namespace HackToolchain.Lowering

/-- Assembly lines in order. -/
abbrev Fragment := List Line

def symbol (name : String) : Line := .instruction (.address (.symbol name))

def literal (value : Nat) : Line := .instruction (.address (.literal value))

def assign (dest comp : String) : Line := .instruction (.compute dest comp "")

def jump (comp condition : String) : Line := .instruction (.compute "" comp condition)

/-- Pushes the data register. -/
def pushData : Fragment :=
  [symbol "SP", assign "A" "M", assign "M" "D", symbol "SP", assign "M" "M+1"]

/-- Pops the top of the stack into the data register through a computation on that cell. -/
def popThrough (comp : String) : Fragment :=
  [symbol "SP", assign "M" "M-1", assign "A" "M", assign "D" comp]

/-- Pops the top of the stack into the data register. -/
def popData : Fragment := popThrough "M"

/-- Pushes the contents of a named cell. -/
def pushNamed (name : String) : Fragment := [symbol name, assign "D" "M"] ++ pushData

end HackToolchain.Lowering
