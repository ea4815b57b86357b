import HackToolchain.Text.Blank

/-! Source text as lines: where a line ends, what a comment leaves of it, and its words. Both
source languages start a comment with two slashes and number their lines from one. -/

namespace HackToolchain.Text

/-- The lines of a text. A line feed ends a line, so a text that ends with one has no empty last
line; a carriage return before it is white space of the line. -/
def lines (text : List Char) : List (List Char) :=
  let pieces := text.splitOn '\n'
  if pieces.getLast? = some [] then pieces.dropLast else pieces

/-- One step of `code`, from the right: the character that follows and the code from there on. -/
def codeStep (c : Char) (next : Option Char × List Char) : Option Char × List Char :=
  (some c, if c = '/' ∧ next.1 = some '/' then [] else c :: next.2)

/-- The part of a line before the first two slashes in a row. -/
def code (line : List Char) : List Char := (line.foldr codeStep (none, [])).2

/-- The code of each line of a text with the number of the line. -/
def numberedCode (text : String) : List (Nat × List Char) :=
  ((lines text.toList).zipIdx 1).map fun (line, number) => (number, code line)

/-- The maximal runs of a line without white space. -/
def words (line : List Char) : List (List Char) :=
  (line.splitOnP isBlank).filter (! ·.isEmpty)

/-- The characters of a line that are not white space. -/
def unspaced (line : List Char) : List Char := line.filter (! isBlank ·)

/-! ### Comments -/

theorem foldr_codeStep_fst (line : List Char) :
    (line.foldr codeStep (none, [])).1 = line.head? := by
  cases line <;> rfl

@[simp] theorem code_nil : code [] = [] := rfl

theorem code_cons (c : Char) (line : List Char) :
    code (c :: line) = if c = '/' ∧ line.head? = some '/' then [] else c :: code line := by
  simp [code, codeStep, foldr_codeStep_fst]

/-- A line without two slashes in a row is code as a whole. -/
theorem code_eq_self {line : List Char} (h : ¬ ['/', '/'] <:+: line) : code line = line := by
  induction line with
  | nil => rfl
  | cons c line ih =>
    rw [code_cons, if_neg, ih fun inner => h (inner.trans (List.suffix_cons c line).isInfix)]
    rintro ⟨rfl, hd⟩
    obtain ⟨rest, rfl⟩ : ∃ rest, line = '/' :: rest := by
      cases line with
      | nil => simp at hd
      | cons d rest => exact ⟨rest, by simpa using hd⟩
    exact h (List.prefix_append ['/', '/'] rest).isInfix

end HackToolchain.Text
