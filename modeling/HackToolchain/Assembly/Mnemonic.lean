import HackToolchain.Defect
import HackToolchain.Machine.Word

/-! The mnemonics of compute instructions and the word they encode: three ones, seven bits that
choose the computation, three for the destinations and three for the jump. -/

namespace HackToolchain.Mnemonic

/-- The bits choose the address register, the data register and the memory cell. -/
def destinations : List (String × BitVec 3) :=
  [("", 0b000), ("M", 0b001), ("D", 0b010), ("MD", 0b011), ("DM", 0b011), ("A", 0b100),
   ("AM", 0b101), ("MA", 0b101), ("AD", 0b110), ("DA", 0b110), ("AMD", 0b111), ("ADM", 0b111),
   ("MAD", 0b111), ("MDA", 0b111), ("DAM", 0b111), ("DMA", 0b111)]

/-- The first bit chooses the memory cell in place of the address register, the other six control
the arithmetic unit. -/
def computations : List (String × BitVec 7) :=
  [("0", 0b0101010), ("1", 0b0111111), ("-1", 0b0111010), ("D", 0b0001100), ("A", 0b0110000),
   ("!D", 0b0001101), ("!A", 0b0110001), ("-D", 0b0001111), ("-A", 0b0110011),
   ("D+1", 0b0011111), ("A+1", 0b0110111), ("D-1", 0b0001110), ("A-1", 0b0110010),
   ("D+A", 0b0000010), ("A+D", 0b0000010), ("D-A", 0b0010011), ("A-D", 0b0000111),
   ("D&A", 0b0000000), ("A&D", 0b0000000), ("D|A", 0b0010101), ("A|D", 0b0010101),
   ("M", 0b1110000), ("!M", 0b1110001), ("-M", 0b1110011), ("M+1", 0b1110111),
   ("M-1", 0b1110010), ("D+M", 0b1000010), ("M+D", 0b1000010), ("D-M", 0b1010011),
   ("M-D", 0b1000111), ("D&M", 0b1000000), ("M&D", 0b1000000), ("D|M", 0b1010101),
   ("M|D", 0b1010101)]

/-- The bits choose a jump on a negative, a zero and a positive result. -/
def jumps : List (String × BitVec 3) :=
  [("", 0b000), ("JGT", 0b001), ("JEQ", 0b010), ("JGE", 0b011), ("JLT", 0b100), ("JNE", 0b101),
   ("JLE", 0b110), ("JMP", 0b111)]

def encodeField {width : Nat} (field : Field) (table : List (String × BitVec width))
    (text : String) : Except Defect (BitVec width) :=
  (table.lookup text).elim (.error (.unknownMnemonic field text)) .ok

def destination : String → Except Defect (BitVec 3) := encodeField .destination destinations

def computation : String → Except Defect (BitVec 7) := encodeField .computation computations

def jump : String → Except Defect (BitVec 3) := encodeField .jump jumps

/-- The word of a compute instruction; of several unknown parts the computation is reported first
and the jump last. -/
def encode (dest comp jmp : String) : Except Defect Word := do
  let comp ← computation comp
  let dest ← destination dest
  let jmp ← jump jmp
  return 0b111#3 ++ comp ++ dest ++ jmp

end HackToolchain.Mnemonic
