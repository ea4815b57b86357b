/-! Binary text of fixed-width values: one character for each bit, the highest first. -/

namespace HackToolchain.Text

/-- The bits of a value as characters. -/
def bitChars {width : Nat} (value : BitVec width) : List Char :=
  (List.range width).map fun i => if value.getMsbD i then '1' else '0'

def bits {width : Nat} (value : BitVec width) : String := String.ofList (bitChars value)

theorem length_bitChars {width : Nat} (value : BitVec width) :
    (bitChars value).length = width := by
  simp [bitChars]

end HackToolchain.Text
