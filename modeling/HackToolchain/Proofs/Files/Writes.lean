import HackToolchain.Files.Tree
import HackToolchain.Proofs.Except

/-! Writing to a file tree. A write fills one place that is no directory and leaves every other
place as it was, so that paths lead where they did before and a text is read back by the path that
it was written to. -/

namespace HackToolchain.FileTree

/-! ### Where paths lead -/

/-- The place that a piece of a path leads to. -/
def beyond (place : Place) (piece : List Char) : Place :=
  if Path.isVacant piece then place
  else if piece = ['.', '.'] then place.dropLast
  else place ++ [String.ofList piece]

theorem requireDirectory_eq_ok {tree : FileTree} {place : Place} {u : Unit} :
    tree.requireDirectory place = .ok u ↔ tree.node? place = some .directory := by
  unfold requireDirectory
  split
  all_goals simp_all

theorem follow_cons_eq_ok {tree : FileTree} {place last : Place} {piece : List Char}
    {rest : List (List Char)} :
    tree.follow place (piece :: rest) = .ok last ↔
      tree.node? place = some .directory ∧ tree.follow (beyond place piece) rest = .ok last := by
  rw [follow, Except.bind_eq_ok]
  simp only [requireDirectory_eq_ok, beyond]
  split_ifs
  all_goals simp

theorem follow_append_eq_ok {tree : FileTree} {place last : Place}
    {front back : List (List Char)} :
    tree.follow place (front ++ back) = .ok last ↔
      ∃ middle, tree.follow place front = .ok middle ∧ tree.follow middle back = .ok last := by
  induction front generalizing place with
  | nil => simp [follow]
  | cons piece rest ih =>
    simp only [List.cons_append, follow_cons_eq_ok, ih]
    constructor
    · rintro ⟨here, middle, first, later⟩
      exact ⟨middle, ⟨here, first⟩, later⟩
    · rintro ⟨middle, ⟨here, first⟩, later⟩
      exact ⟨here, middle, first, later⟩

theorem locate_eq_ok {tree : FileTree} {path : String} {place : Place} {node : Node} :
    tree.locate path = .ok (place, node) ↔
      tree.follow (tree.origin path) (Path.pieces path) = .ok place ∧
        tree.node? place = some node := by
  rw [locate, Except.bind_eq_ok]
  constructor
  · rintro ⟨other, led, found⟩
    split at found
    · cases found
      exact ⟨led, by assumption⟩
    · cases found
  · rintro ⟨led, found⟩
    exact ⟨place, led, by rw [found]; rfl⟩

theorem readText_eq_ok {tree : FileTree} {path text : String} :
    tree.readText path = .ok text ↔
      ∃ place, tree.locate path = .ok (place, .file (some text)) := by
  rw [readText, Except.bind_eq_ok]
  constructor
  · rintro ⟨⟨place, node⟩, found, read⟩
    split at read
    all_goals cases read
    exact ⟨place, by simp_all⟩
  · rintro ⟨place, found⟩
    exact ⟨_, found, rfl⟩

theorem isDirectory_eq_true {tree : FileTree} {path : String} :
    tree.isDirectory path = true ↔ ∃ place, tree.locate path = .ok (place, .directory) := by
  unfold isDirectory
  split
  all_goals simp_all

theorem isDirectory_of_entries {tree : FileTree} {path : String} {names : List String}
    (h : tree.entries path = .ok names) : tree.isDirectory path = true := by
  rw [entries, Except.bind_eq_ok] at h
  obtain ⟨⟨place, node⟩, found, listed⟩ := h
  cases node with
  | directory => exact isDirectory_eq_true.mpr ⟨place, found⟩
  | file => cases listed

/-- The last piece of a path that a text is read by names something. -/
theorem not_isVacant_of_readText {tree : FileTree} {path text : String} {before : List (List Char)}
    {name : List Char} (split : Path.pieces path = before ++ [name])
    (h : tree.readText path = .ok text) : Path.isVacant name = false := by
  obtain ⟨place, found⟩ := readText_eq_ok.mp h
  obtain ⟨led, node⟩ := locate_eq_ok.mp found
  rw [split, follow_append_eq_ok] at led
  obtain ⟨directory, -, last⟩ := led
  obtain ⟨above, same⟩ := follow_cons_eq_ok.mp last
  by_contra vacant
  rw [Bool.not_eq_false] at vacant
  simp only [follow, beyond, vacant, if_true, Except.ok.injEq] at same
  rw [← same, above] at node
  cases node

/-! ### Writes -/

theorem lookup_put (place other : Place) (node : Node) (nodes : List (Place × Node)) :
    (put place node nodes).lookup other =
      if other = place then some node else nodes.lookup other := by
  induction nodes with
  | nil => grind [put]
  | cons first rest ih => grind [put]

/-- What writing a text at a place leaves. -/
structure Written (before after : FileTree) (place : Place) (contents : String) : Prop where
  start : after.start = before.start
  free : before.node? place ≠ some .directory
  here : after.node? place = some (.file (some contents))
  elsewhere : ∀ other, other ≠ place → after.node? other = before.node? other

/-- The place that is written to, which a path without a slash at its end leads to. -/
theorem follow_of_target {tree : FileTree} {path : String} {place : Place}
    (h : tree.target path = .ok place) :
    tree.follow (tree.origin path) (Path.pieces path) = .ok place := by
  rw [target] at h
  dsimp only at h
  rw [Except.bind_eq_ok] at h
  obtain ⟨other, led, done⟩ := h
  split at done
  · cases done
  · rename_i whole
    have same : (Path.pieces path).reverse.dropWhile List.isEmpty = (Path.pieces path).reverse :=
      (List.dropWhile_suffix _).eq_of_length_le (Nat.not_lt.mp whole)
    cases done
    rwa [same, List.reverse_reverse] at led

theorem written_of_writeText {before after : FileTree} {path text : String}
    (h : before.writeText path text = .ok after) :
    ∃ place, before.target path = .ok place ∧ Written before after place text := by
  rw [writeText, Except.bind_eq_ok] at h
  obtain ⟨place, led, put⟩ := h
  refine ⟨place, led, ?_⟩
  split at put
  · cases put
  · rename_i free
    have named : place.isEmpty = false := by
      by_contra root
      rw [Bool.not_eq_false] at root
      exact free (by rw [node?, root, if_pos rfl])
    cases put
    constructor
    case start => rfl
    case free => exact free
    case here => simp [node?, named, lookup_put]
    case elsewhere =>
      intro other different
      simp [node?, lookup_put, different]

section

variable {before after : FileTree} {place : Place} {text : String}

namespace Written

theorem directory_iff (h : Written before after place text) (other : Place) :
    after.node? other = some .directory ↔ before.node? other = some .directory := by
  by_cases same : other = place
  · rw [same, h.here]
    simp [h.free]
  · rw [h.elsewhere other same]

theorem follow_eq_ok (h : Written before after place text) {first last : Place}
    {pieces : List (List Char)} :
    after.follow first pieces = .ok last ↔ before.follow first pieces = .ok last := by
  induction pieces generalizing first with
  | nil => rfl
  | cons piece rest ih => rw [follow_cons_eq_ok, follow_cons_eq_ok, h.directory_iff, ih]

theorem origin_eq (h : Written before after place text) (path : String) :
    after.origin path = before.origin path := by
  rw [origin, origin, h.start]

/-- The empty path leads to a directory, which is not written to. -/
theorem path_ne_empty (h : Written before after place text) {path : String}
    (target : before.target path = .ok place) : path ≠ "" := by
  rintro rfl
  obtain ⟨directory, led⟩ := follow_cons_eq_ok.mp (follow_of_target target)
  cases led
  exact h.free directory

/-- The path that was written to leads to the file with the text. -/
theorem locate (h : Written before after place text) {path : String}
    (target : before.target path = .ok place) :
    after.locate path = .ok (place, .file (some text)) := by
  rw [locate_eq_ok, h.origin_eq, h.follow_eq_ok]
  exact ⟨follow_of_target target, h.here⟩

theorem readText (h : Written before after place text) {path : String}
    (target : before.target path = .ok place) : after.readText path = .ok text :=
  readText_eq_ok.mpr ⟨place, h.locate target⟩

theorem isDirectory (h : Written before after place text) {path : String}
    (target : before.target path = .ok place) : after.isDirectory path = false := by
  rw [FileTree.isDirectory, h.locate target]

end Written

end

end HackToolchain.FileTree
