import HackToolchain.Assembly.Layout
import HackToolchain.Lowering.Program

/-! The lines of a source that the assembler reads: without comments and white space, and not
empty. A source that is put together from lines has the clean lines of each in order. -/

namespace HackToolchain

namespace Text

/-- A line without its comment and its white space. -/
def clean (line : List Char) : List Char := unspaced (code line)

/-- The lines of a text that are not empty when they are clean. -/
def cleanLines (text : List Char) : List (List Char) :=
  ((text.splitOn '\n').map clean).filter (! ·.isEmpty)

@[simp] theorem clean_nil : clean [] = [] := rfl

@[simp] theorem cleanLines_nil : cleanLines [] = [] := by
  simp [cleanLines, List.splitOn_nil]

theorem cleanLines_append (text rest : List Char) :
    cleanLines (text ++ '\n' :: rest) = cleanLines text ++ cleanLines rest := by
  simp [cleanLines, List.splitOn_append_cons_self]

theorem cleanLines_of_not_mem {line : List Char} (h : '\n' ∉ line) :
    cleanLines line = if clean line = [] then [] else [clean line] := by
  rw [cleanLines, List.splitOn_eq_singleton h]
  by_cases empty : clean line = [] <;> simp [empty]

/-! ### Comments and white space -/

/-- A line that starts with two slashes is a comment as a whole. -/
theorem clean_comment (rest : List Char) : clean ('/' :: '/' :: rest) = [] := by
  simp [clean, code_cons, unspaced]

/-- A line without slashes only loses its white space. -/
theorem clean_eq_unspaced {line : List Char} (h : '/' ∉ line) : clean line = unspaced line := by
  rw [clean, code_eq_self fun inside => h (inside.mem (by simp))]

theorem unspaced_append (line rest : List Char) :
    unspaced (line ++ rest) = unspaced line ++ unspaced rest := by
  simp [unspaced]

theorem unspaced_eq_self {line : List Char} (h : ∀ c ∈ line, isBlank c = false) :
    unspaced line = line := by
  simpa [unspaced] using h

/-! ### Numbered lines -/

/-- The lines that are kept, each with its number, which counts from one and counts all lines. -/
def numbered (keep : List Char → Bool) (lines : List (List Char)) : List (Nat × List Char) :=
  ((lines.zipIdx 1).map Prod.swap).filter fun entry => keep entry.2

section

variable {keep : List Char → Bool} {lines : List (List Char)}

theorem map_snd_numbered : (numbered keep lines).map (·.2) = lines.filter keep := by
  have plain : (lines.zipIdx 1).map (·.1) = lines := List.zipIdx_map_fst 1 lines
  conv =>
    rhs
    rw [← plain, List.filter_map]
  rw [numbered, List.filter_map, List.map_map]
  rfl

variable (keep) in
/-- A kept line splits the numbered lines, and before it are those of the lines before. -/
theorem exists_numbered_eq {i : Nat} {line : List Char} (found : lines[i]? = some line)
    (kept : keep line) : ∃ back,
      numbered keep lines = numbered keep (lines.take i) ++ (i + 1, line) :: back := by
  obtain ⟨inside, rfl⟩ := List.getElem?_eq_some_iff.mp found
  have length : (lines.take i).length = i := List.length_take_of_le (Nat.le_of_lt inside)
  conv =>
    enter [1, back, 1]
    rw [← List.take_append_drop i lines, List.drop_eq_getElem_cons inside]
  simp only [numbered, List.zipIdx_append, List.zipIdx_cons, List.map_append, List.map_cons,
    List.filter_append, length, Nat.add_comm 1 i]
  rw [List.filter_cons_of_pos (by exact kept)]
  exact ⟨_, rfl⟩

theorem of_numbered_eq {front back : List (Nat × List Char)} {number : Nat} {line : List Char}
    (split : numbered keep lines = front ++ (number, line) :: back) :
    ∃ i, number = i + 1 ∧ lines[i]? = some line ∧ keep line ∧
      front = numbered keep (lines.take i) := by
  obtain ⟨first, rest, whole, rfl, last⟩ := List.filter_eq_append_iff.mp split
  obtain ⟨dropped, after, rfl, none, kept, -⟩ := List.filter_eq_cons_iff.mp last
  rw [← List.append_assoc] at whole
  obtain ⟨before, rest, whole, mapped, last⟩ := List.map_eq_append_iff.mp whole
  obtain ⟨entry, after, rfl, swapped, -⟩ := List.map_eq_cons_iff.mp last
  obtain ⟨before, rest, rfl, rfl, later⟩ := List.zipIdx_eq_append_iff.mp whole
  obtain ⟨_, rest, rfl, rfl, -⟩ := List.zipIdx_eq_cons_iff.mp later.symm
  cases swapped
  refine ⟨before.length, Nat.add_comm 1 _, by simp, kept, ?_⟩
  rw [List.take_left, numbered, mapped, List.filter_append,
    List.filter_eq_nil_iff.mpr (fun entry inside => none entry inside), List.append_nil]

end

end Text

namespace Layout

/-- The lines that the assembler reads are the clean lines of a source that are not empty. -/
theorem sourceLines_eq (source : String) : sourceLines source =
    Text.numbered (! ·.isEmpty) ((source.toList.splitOn '\n').map Text.clean) := by
  have whole : sourceLines source =
      Text.numbered (! ·.isEmpty) ((Text.lines source.toList).map Text.clean) := by
    simp only [sourceLines, Text.numberedCode, Text.numbered, List.zipIdx_map, List.map_map]
    rfl
  rw [whole, Text.lines]
  split
  · next last =>
    obtain ⟨front, same⟩ := List.getLast?_eq_some_iff.mp last
    simp [same, Text.numbered, List.zipIdx_append]
  · rfl

theorem sourceLines_snd (source : String) :
    (sourceLines source).map (·.2) = Text.cleanLines source.toList := by
  rw [sourceLines_eq, Text.map_snd_numbered, Text.cleanLines]

end Layout

/-! ### Sources made of lines -/

theorem toList_unlines (lines : List String) :
    (unlines lines).toList = lines.flatMap fun line => line.toList ++ ['\n'] := by
  simp [unlines, String.toList_join, List.flatMap_map]

theorem splitOn_unlines {lines : List String} (h : ∀ line ∈ lines, '\n' ∉ line.toList) :
    (unlines lines).toList.splitOn '\n' = lines.map String.toList ++ [[]] := by
  rw [toList_unlines]
  induction lines with
  | nil => simp [List.splitOn_nil]
  | cons line lines ih =>
    obtain ⟨here, later⟩ := List.forall_mem_cons.mp h
    rw [List.flatMap_cons, List.append_assoc, List.singleton_append,
      List.splitOn_append_cons_self, List.splitOn_eq_singleton here, ih later]
    rfl

/-- Lines without a line feed are the lines of the text that they make. -/
theorem lines_unlines {lines : List String} (h : ∀ line ∈ lines, '\n' ∉ line.toList) :
    Text.lines (unlines lines).toList = lines.map String.toList := by
  rw [Text.lines, splitOn_unlines h]
  simp

/-- Lines without a line feed are the lines of the source that they make. -/
theorem sourceLines_unlines {lines : List String} (h : ∀ line ∈ lines, '\n' ∉ line.toList) :
    Layout.sourceLines (unlines lines) =
      Text.numbered (! ·.isEmpty) (lines.map fun line => Text.clean line.toList) := by
  rw [Layout.sourceLines_eq, splitOn_unlines h]
  simp [Text.numbered, List.zipIdx_append, Function.comp_def]

theorem cleanLines_unlines (lines : List String) :
    Text.cleanLines (unlines lines).toList =
      lines.flatMap fun line => Text.cleanLines line.toList := by
  rw [toList_unlines]
  induction lines with
  | nil => simp
  | cons line lines ih =>
    simp only [List.flatMap_cons, List.append_assoc, List.cons_append, List.nil_append]
    rw [Text.cleanLines_append, ih]

end HackToolchain
