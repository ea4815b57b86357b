import HackToolchain.Files.Path
import HackToolchain.Proofs.Text.Pieces
import Mathlib.Data.List.TakeWhile

/-! Extensions of path text. A path is a front, which is empty or ends with a slash, before a name;
another extension changes the name alone, so that the path with one extension and then another is
the path with the other. -/

namespace HackToolchain.Path

/-! ### Fronts and names -/

/-- What stands before the last piece of a path. -/
def IsFront (front : List Char) : Prop := front = [] ∨ ∃ above, front = above ++ ['/']

theorem intercalate_snoc (sep : Char) (name : List Char) {before : List (List Char)}
    (nonempty : before ≠ []) :
    [sep].intercalate (before ++ [name]) = [sep].intercalate before ++ sep :: name := by
  induction before with
  | nil => contradiction
  | cons first rest ih =>
    cases rest with
    | nil => simp [List.intercalate]
    | cons second rest => simpa [List.intercalate] using ih (List.cons_ne_nil second rest)

/-- The pieces of all paths with one front differ in the last one only. -/
theorem IsFront.pieces {front : List Char} (h : IsFront front) : ∃ before,
    (∀ name, '/' ∉ name → pieces (String.ofList (front ++ name)) = before ++ [name]) ∧
      ∀ name, ['/'].intercalate (before ++ [name]) = front ++ name := by
  rcases h with rfl | ⟨above, rfl⟩
  · refine ⟨[], fun name slash => ?_, fun name => by simp [List.intercalate]⟩
    rw [Path.pieces, String.toList_ofList, List.nil_append, List.nil_append,
      List.splitOn_eq_singleton slash]
  · refine ⟨above.splitOn '/', fun name slash => ?_, fun name => ?_⟩
    · rw [Path.pieces, String.toList_ofList, List.append_assoc, List.singleton_append,
        List.splitOn_append_cons_self, List.splitOn_eq_singleton slash]
    · rw [intercalate_snoc '/' name (List.splitOn_ne_nil '/' above), List.intercalate_splitOn,
        List.append_assoc, List.singleton_append]

theorem exists_front (path : String) :
    ∃ front name, IsFront front ∧ '/' ∉ name ∧ path = String.ofList (front ++ name) := by
  by_cases slash : '/' ∈ path.toList
  · obtain ⟨above, name, same, free⟩ := Text.exists_append_last slash
    refine ⟨above ++ ['/'], name, .inr ⟨above, rfl⟩, free, ?_⟩
    rw [List.append_assoc, List.singleton_append, ← same, String.ofList_toList]
  · exact ⟨[], path.toList, .inl rfl, slash, by rw [List.nil_append, String.ofList_toList]⟩

/-- The entries of a directory have one front. -/
theorem exists_join (directory : String) : ∃ front, IsFront front ∧
    ∀ name, join directory name = String.ofList (front ++ name.toList) := by
  by_cases slash : directory.toList.getLast? = some '/'
  · obtain ⟨above, same⟩ := List.getLast?_eq_some_iff.mp slash
    refine ⟨directory.toList, .inr ⟨above, same⟩, fun name => ?_⟩
    rw [join, if_pos slash, ← String.toList_inj]
    simp
  · refine ⟨directory.toList ++ ['/'], .inr ⟨_, rfl⟩, fun name => ?_⟩
    rw [join, if_neg slash, ← String.toList_inj]
    simp

/-- A name that a path can end with: not empty, and neither a directory's own name nor that of its
parent. -/
structure Proper (name : List Char) : Prop where
  whole : '/' ∉ name
  named : isVacant name = false
  child : name ≠ ['.', '.']

theorem IsFront.reversedPieces {front : List Char} (h : IsFront front) :
    ∃ above : List (List Char),
      (∀ name, '/' ∉ name → isVacant name = false →
        reversedPieces (String.ofList (front ++ name)) = name :: above) ∧
      ∀ name, ['/'].intercalate (above.reverse ++ [name]) = front ++ name := by
  obtain ⟨before, split, joined⟩ := h.pieces
  refine ⟨before.reverse, fun name whole named => ?_, by simpa using joined⟩
  rw [Path.reversedPieces, split name whole, List.reverse_append, List.reverse_singleton,
    List.singleton_append, List.dropWhile_cons_of_neg (by simp [named])]

theorem fileName?_front {front name : List Char} (h : IsFront front) (proper : Proper name) :
    fileName? (String.ofList (front ++ name)) = some name := by
  obtain ⟨above, split, -⟩ := h.reversedPieces
  rw [fileName?, split name proper.whole proper.named]
  simp [proper.child]

theorem fileName?_parent {front : List Char} (h : IsFront front) :
    fileName? (String.ofList (front ++ ['.', '.'])) = none := by
  obtain ⟨above, split, -⟩ := h.reversedPieces
  rw [fileName?, split _ (by decide) (by decide)]
  simp

theorem proper_of_fileName? {path : String} {name : List Char} (h : fileName? path = some name) :
    Proper name := by
  unfold fileName? at h
  split at h
  · cases h
  · rename_i name' above found
    split at h
    · cases h
    rename_i child
    cases h
    have inside : name ∈ pieces path := by
      rw [← List.mem_reverse]
      refine (List.dropWhile_sublist _).subset (?_ : name ∈ reversedPieces path)
      rw [found]
      exact List.mem_cons_self ..
    have named : isVacant name = false := by
      have first := List.head?_dropWhile_not isVacant (pieces path).reverse
      rw [← reversedPieces, found] at first
      simpa using first
    exact ⟨Text.not_mem_of_mem_splitOn inside, named, child⟩

/-! ### Names with an extension -/

/-- The last dot of a name divides it, if something stands before it. -/
theorem splitName_append (stem : List Char) {old : List Char} (dotless : '.' ∉ old) :
    splitName (stem ++ '.' :: old) =
      if stem = [] then ('.' :: old, none) else (stem, some old) := by
  have reversed : (stem ++ '.' :: old).reverse = old.reverse ++ '.' :: stem.reverse := by simp
  have plain : ∀ c ∈ old.reverse, (c != '.') = true := by
    intro c inside
    rw [bne_iff_ne]
    rintro rfl
    exact dotless (List.mem_reverse.mp inside)
  unfold splitName
  rw [reversed, List.takeWhile_append_of_pos plain, List.dropWhile_append_of_pos plain]
  cases stem
  all_goals simp

theorem eq_of_splitName {name stem old : List Char} (h : splitName name = (stem, some old)) :
    stem ≠ [] ∧ '.' ∉ old ∧ name = stem ++ '.' :: old := by
  by_cases dot : '.' ∈ name
  · obtain ⟨front, back, rfl, dotless⟩ := Text.exists_append_last dot
    rw [splitName_append front dotless] at h
    split at h
    · cases h
    · rename_i nonempty
      cases h
      exact ⟨nonempty, dotless, rfl⟩
  · have plain : ∀ c ∈ name.reverse, (c != '.') = true := by
      intro c inside
      rw [bne_iff_ne]
      rintro rfl
      exact dot (List.mem_reverse.mp inside)
    rw [splitName, List.dropWhile_eq_nil_iff.mpr plain] at h
    cases h

section

variable {front name stem old : List Char}

theorem splitName_extended (nonempty : stem ≠ []) (dotless : '.' ∉ old) :
    splitName (stem ++ '.' :: old) = (stem, some old) := by
  rw [splitName_append stem dotless, if_neg nonempty]

/-- Only a single dot with nothing behind its extension's dot leads to a parent. -/
theorem proper_extended (whole : '/' ∉ stem ++ '.' :: old) (nonempty : stem ≠ [])
    (child : stem ≠ ['.'] ∨ old ≠ []) : Proper (stem ++ '.' :: old) where
  whole := whole
  named := by
    cases stem with
    | nil => contradiction
    | cons c rest => cases rest <;> simp [isVacant]
  child same := by
    rcases stem with _ | ⟨c, _ | ⟨d, rest⟩⟩
    · contradiction
    · simp only [List.cons_append, List.nil_append, List.cons.injEq] at same
      obtain ⟨rfl, -, rfl⟩ := same
      simp at child
    · simp at same

theorem extend_front (h : IsFront front) (proper : Proper name) (extension : String) :
    extend (String.ofList (front ++ name)) extension =
      String.ofList (front ++ ((splitName name).1 ++ '.' :: extension.toList)) := by
  obtain ⟨above, split, joined⟩ := h.reversedPieces
  rw [extend, fileName?_front h proper, split name proper.whole proper.named]
  simp only [joined]

theorem extension?_front (h : IsFront front) (proper : Proper name) :
    extension? (String.ofList (front ++ name)) = (splitName name).2.map String.ofList := by
  rw [extension?, fileName?_front h proper, Option.bind_some]

theorem withExtension_front (h : IsFront front) (proper : Proper (stem ++ '.' :: old))
    (nonempty : stem ≠ []) (dotless : '.' ∉ old) (new : String) :
    withExtension (String.ofList (front ++ (stem ++ '.' :: old))) new =
      extend (String.ofList (front ++ (stem ++ ['.']))) new := by
  rw [withExtension, extension?_front h proper, splitName_extended nonempty dotless]
  have same : front ++ (stem ++ '.' :: old) = (front ++ (stem ++ ['.'])) ++ old := by simp
  simp only [Option.map_some, Option.getD_some, String.length_ofList, String.toList_ofList]
  rw [same, List.length_append, Nat.add_sub_cancel, List.take_left]

/-- Another extension changes the name alone, behind its stem. -/
theorem withExtension_extended (h : IsFront front) (whole : '/' ∉ stem ++ '.' :: old)
    (nonempty : stem ≠ []) (child : stem ≠ ['.']) (dotless : '.' ∉ old) (new : String) :
    withExtension (String.ofList (front ++ (stem ++ '.' :: old))) new =
      String.ofList (front ++ (stem ++ '.' :: new.toList)) := by
  have bare : '/' ∉ stem ++ ['.'] := by
    simp only [List.mem_append, List.mem_cons, not_or] at whole ⊢
    simp [whole.1]
  rw [withExtension_front h (proper_extended whole nonempty (.inl child)) nonempty dotless,
    extend_front h (proper_extended bare nonempty (.inl child)),
    splitName_extended nonempty List.not_mem_nil]

/-- Of a name with a single dot before its extension the two dots are left, which lead to the
parent and take no extension. -/
theorem withExtension_parent (h : IsFront front) (extended : old ≠ []) (whole : '/' ∉ old)
    (dotless : '.' ∉ old) (new : String) :
    withExtension (String.ofList (front ++ ('.' :: '.' :: old))) new =
      String.ofList (front ++ ['.', '.']) := by
  have proper : Proper (['.'] ++ '.' :: old) :=
    proper_extended (by simpa using whole) (List.cons_ne_nil _ _) (.inr extended)
  refine (withExtension_front h proper (List.cons_ne_nil _ _) dotless new).trans ?_
  rw [extend]
  simp only [List.singleton_append, fileName?_parent h]

theorem withExtension_of_fileName? {path : String} (h : fileName? path = none) (new : String) :
    withExtension path new = path := by
  have none : extension? path = none := by rw [extension?, h, Option.bind_none]
  rw [withExtension, none, Option.map_none, Option.getD_none, Nat.sub_zero, ← String.length_toList,
    List.take_length, String.ofList_toList, extend, h]

end

/-! ### Paths of sources -/

theorem Proper.nonempty {name : List Char} (proper : Proper name) : name ≠ [] := by
  rintro rfl
  cases proper.named

theorem Proper.ne_dot {name : List Char} (proper : Proper name) : name ≠ ['.'] := by
  rintro rfl
  cases proper.named

/-- A path to a source file ends with a stem and the extension. -/
theorem exists_stem {front name : List Char} (h : IsFront front) (whole : '/' ∉ name)
    (named : isVacant name = false) (source : isSource (String.ofList (front ++ name)) = true) :
    ∃ stem, stem ≠ [] ∧ name = stem ++ '.' :: "vm".toList := by
  have child : name ≠ ['.', '.'] := by
    rintro rfl
    rw [isSource, extension?, fileName?_parent h] at source
    cases source
  rw [isSource, beq_iff_eq, extension?_front h ⟨whole, named, child⟩,
    Option.map_eq_some_iff] at source
  obtain ⟨old, split, text⟩ := source
  obtain ⟨nonempty, -, same⟩ := eq_of_splitName (Prod.ext rfl split)
  refine ⟨_, nonempty, ?_⟩
  rw [← text, String.toList_ofList]
  exact same

theorem toList_source (stem : String) :
    (stem ++ ".vm").toList = stem.toList ++ '.' :: "vm".toList := by
  simp

/-- The names that end with the extension of source files are proper ones. -/
theorem proper_source {stem : String} (whole : '/' ∉ stem.toList) (nonempty : stem ≠ "") :
    Proper (stem.toList ++ '.' :: "vm".toList) := by
  rw [ne_eq, ← String.toList_eq_nil_iff] at nonempty
  exact proper_extended (by simpa using whole) nonempty (.inr (by decide))

/-- The names of source files in a directory. -/
theorem isSource_iff {name : String} (whole : '/' ∉ name.toList) :
    isSource name = true ↔ ∃ stem, stem ≠ "" ∧ name = stem ++ ".vm" := by
  constructor
  · intro source
    have named : isVacant name.toList = false := by
      by_contra vacant
      simp only [isVacant, Bool.not_eq_false, Bool.or_eq_true, List.isEmpty_iff,
        beq_iff_eq] at vacant
      rcases vacant with empty | dot
      · rw [← String.ofList_toList (s := name), empty] at source
        exact absurd source (by decide)
      · rw [← String.ofList_toList (s := name), dot] at source
        exact absurd source (by decide)
    rw [← String.ofList_toList (s := name)] at source
    obtain ⟨stem, nonempty, same⟩ := exists_stem (.inl rfl : IsFront []) whole named source
    refine ⟨String.ofList stem, ?_, ?_⟩
    · rwa [ne_eq, ← String.toList_inj, String.toList_ofList]
    · rw [← String.toList_inj, same]
      simp
  · rintro ⟨stem, nonempty, rfl⟩
    rw [toList_source] at whole
    have stemWhole : '/' ∉ stem.toList := fun inside => whole (List.mem_append_left _ inside)
    have path : stem ++ ".vm" = String.ofList ([] ++ (stem.toList ++ '.' :: "vm".toList)) := by
      rw [List.nil_append, ← toList_source, String.ofList_toList]
    rw [isSource, path, extension?_front (.inl rfl) (proper_source stemWhole nonempty),
      splitName_extended (by simpa using nonempty) (by decide)]
    rfl

/-- The stem of a source file in a directory. -/
theorem stem?_join (directory : String) {stem : String} (whole : '/' ∉ stem.toList)
    (nonempty : stem ≠ "") : stem? (join directory (stem ++ ".vm")) = some stem := by
  obtain ⟨front, h, joined⟩ := exists_join directory
  rw [joined, toList_source, stem?, fileName?_front h (proper_source whole nonempty),
    Option.map_some, splitName_extended (by simpa using nonempty) (by decide),
    String.ofList_toList]

/-- The path of a source file with one extension and then another is its path with the other. -/
theorem withExtension_withExtension {path middle : String} (new : String)
    (source : isSource path = true)
    (named : ∀ before name, pieces path = before ++ [name] → isVacant name = false)
    (whole : '/' ∉ middle.toList) (dotless : '.' ∉ middle.toList) :
    withExtension (withExtension path middle) new = withExtension path new := by
  obtain ⟨front, name, h, free, rfl⟩ := exists_front path
  obtain ⟨before, split, -⟩ := h.pieces
  obtain ⟨stem, nonempty, rfl⟩ := exists_stem h free (named before name (split name free)) source
  by_cases child : stem = ['.']
  · subst child
    have parent : ∀ extension, withExtension
        (String.ofList (front ++ (['.'] ++ '.' :: "vm".toList))) extension =
          String.ofList (front ++ ['.', '.']) :=
      fun extension => withExtension_parent h (by decide) (by decide) (by decide) extension
    rw [parent, parent, withExtension_of_fileName? (fileName?_parent h)]
  · have stemWhole : '/' ∉ stem := fun inside => free (List.mem_append_left _ inside)
    rw [withExtension_extended h free nonempty child (by decide),
      withExtension_extended h (by simp [stemWhole, whole]) nonempty child dotless,
      withExtension_extended h free nonempty child (by decide)]

/-- Another extension for a file that is named for its directory. -/
theorem withExtension_join {name : List Char} (directory : String) {old : String} (new : String)
    (proper : Proper name) (whole : '/' ∉ old.toList) (dotless : '.' ∉ old.toList) :
    withExtension (join directory (String.ofList name ++ "." ++ old)) new =
      join directory (String.ofList name ++ "." ++ new) := by
  obtain ⟨front, h, joined⟩ := exists_join directory
  have spelled : ∀ extension : String,
      (String.ofList name ++ "." ++ extension).toList = name ++ '.' :: extension.toList := by
    simp
  rw [joined, joined, spelled, spelled]
  exact withExtension_extended h (by simp [proper.whole, whole]) proper.nonempty proper.ne_dot
    dotless new

end HackToolchain.Path
