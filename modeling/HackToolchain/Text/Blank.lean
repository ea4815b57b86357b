/-! White space: the twenty-five characters with the Unicode property `White_Space`. -/

namespace HackToolchain.Text

/-- The white space characters, as ranges of code points with both ends included. -/
def blankRanges : List (Nat × Nat) :=
  [(0x9, 0xD), (0x20, 0x20), (0x85, 0x85), (0xA0, 0xA0), (0x1680, 0x1680), (0x2000, 0x200A),
   (0x2028, 0x2029), (0x202F, 0x202F), (0x205F, 0x205F), (0x3000, 0x3000)]

def isBlank (c : Char) : Bool :=
  blankRanges.any fun (first, last) => first ≤ c.toNat && c.toNat ≤ last

example : isBlank '\u0085' ∧ ¬ isBlank '\u200b' := by decide

end HackToolchain.Text
