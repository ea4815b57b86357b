import HackToolchain.Text.CaseTable

/-! Upper case, character by character and without regard to language: a character may become
several, as `ß` becomes `SS`. -/

namespace HackToolchain.Text

def CaseRun.contains (run : CaseRun) (point : Nat) : Bool :=
  run.first ≤ point && point ≤ run.last && (point - run.first) % run.stride == 0

/-- The upper case of one character. -/
def upperChar (c : Char) : List Char :=
  if c.toNat < 0x80 then
    [c.toUpper]
  else match caseExpansions.lookup c.toNat with
    | some points => points.map Char.ofNat
    | none => match caseRuns.find? (·.contains c.toNat) with
      | some run => [Char.ofNat (c.toNat + run.offset).toNat]
      | none => [c]

example : upperChar 'ß' = ['S', 'S'] := by decide +kernel

example : upperChar 'ı' = ['I'] := by decide +kernel

/-- The upper case of a text. -/
def upper (text : String) : String := String.ofList (text.toList.flatMap upperChar)

end HackToolchain.Text
