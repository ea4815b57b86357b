import HackToolchain.Machine.Word
import HackToolchain.Text.Binary

/-! Machine code: the words of a program in the order of their addresses. -/

namespace HackToolchain

structure Image where
  words : Array Word

namespace Image

def size (image : Image) : Nat := image.words.size

/-- One line of sixteen bits for each word. -/
def text (image : Image) : String :=
  String.join (image.words.toList.map fun word => Text.bits word ++ "\n")

end Image

end HackToolchain
