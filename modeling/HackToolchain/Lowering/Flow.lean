import HackToolchain.Lowering.Fragment
import HackToolchain.Text.Upper

/-! Labels and jumps inside a program. A declaration puts its label in upper case, a jump takes it
as it is written. -/

namespace HackToolchain.Lowering

def label (name : String) : Fragment := [.label (Text.upper name)]

def goto (name : String) : Fragment := [symbol name, jump "0" "JMP"]

/-- Jumps if the word that it pops is not zero. -/
def ifGoto (name : String) : Fragment := popData ++ [symbol name, jump "D" "JNE"]

end HackToolchain.Lowering
