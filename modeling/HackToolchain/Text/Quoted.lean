import HackToolchain.Text.HiddenTable

/-! Quoted text for messages: between double quotes, with every character that would be lost or
misread on a page shown by an escape. -/

namespace HackToolchain.Text

def isHidden (c : Char) : Bool :=
  hiddenRanges.any fun (first, last) => first ≤ c.toNat && c.toNat ≤ last

/-- A character of a quoted text. -/
def quotedChar (c : Char) : List Char :=
  match c with
  | '"' => ['\\', '"']
  | '\\' => ['\\', '\\']
  | '\t' => ['\\', 't']
  | '\r' => ['\\', 'r']
  | '\n' => ['\\', 'n']
  | '\x00' => ['\\', '0']
  | c => if isHidden c then ['\\', 'u', '\x7b'] ++ Nat.toDigits 16 c.toNat ++ ['\x7d'] else [c]

example : quotedChar 'é' = ['é'] := by decide +kernel

example : quotedChar '\u00ad' = ['\\', 'u', '\x7b', 'a', 'd', '\x7d'] := by decide +kernel

example : quotedChar '\uff9e' = ['\uff9e'] := by decide +kernel

example : quotedChar '\u3164' = ['\\', 'u', '\x7b', '3', '1', '6', '4', '\x7d'] := by decide +kernel

def quoted (text : String) : String :=
  String.ofList ('"' :: text.toList.flatMap quotedChar ++ ['"'])

end HackToolchain.Text
