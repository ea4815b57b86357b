/-! Questions about a listing, which is the list of the lines of a program: where a run of lines
stands, how often a line occurs, and what labels are declared. -/

namespace HackToolchain.Listing

/-- The position of the first run of lines that is equal to the pattern. -/
def find? (pattern : List String) : List String → Option Nat
  | [] => if pattern.isEmpty then some 0 else none
  | line :: lines =>
    if pattern.isPrefixOf (line :: lines) then some 0 else (find? pattern lines).map (· + 1)

/-- The report on a pattern that a listing lacks. -/
def missing (pattern lines : List String) : String :=
  "Pattern not found in assembly.\n\nExpected lines:\n  " ++ "\n  ".intercalate pattern ++
    "\n\nActual lines:\n  " ++ "\n  ".intercalate lines

/-- Fails with a report unless the pattern stands somewhere in the listing. -/
def require (pattern lines : List String) : Except String Unit :=
  if (find? pattern lines).isSome then .ok () else .error (missing pattern lines)

/-- The text between the parentheses of a line that declares a label. -/
def declared? (line : String) : Option String :=
  match line.toList with
  | '(' :: inner =>
    if inner.getLast? = some ')' then some (String.ofList inner.dropLast) else none
  | _ => none

def declaredLabels (lines : List String) : List String := lines.filterMap declared?

end HackToolchain.Listing
