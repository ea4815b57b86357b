import HackToolchain.Proofs.CommandLine.Execution
import HackToolchain.Proofs.Files.Extensions
import HackToolchain.Proofs.Files.Writes
import HackToolchain.Proofs.Lowering.Titles
import HackToolchain.Proofs.Text.ByteOrder
import Mathlib.Data.Set.List

/-! Directories of source files. The order in which a directory lists its entries plays no part:
its source files are taken in the order of the bytes of their names, and the first of them that is
not read decides the failure. -/

namespace HackToolchain

open CommandLine

namespace FileTree

/-! ### The order of the source files -/

/-- The stems of the source files among the names of a directory, in the order of the bytes of the
names. -/
structure Stems (names stems : List String) : Prop where
  perm : (stems.map (· ++ ".vm")).Perm (names.filter Path.isSource)
  sorted : (stems.map (· ++ ".vm")).Pairwise fun a b => Text.bytes a ≤ Text.bytes b

theorem pairwise_sort (names : List String) :
    (names.mergeSort fun a b => decide (a ≤ b)).Pairwise (· ≤ ·) := by
  have sorted : (names.mergeSort fun a b => decide (a ≤ b)).Pairwise
      fun a b => decide (a ≤ b) = true := by
    apply List.pairwise_mergeSort
    · intro a b c
      simpa using le_trans
    · intro a b
      simpa using String.le_total a b
  exact sorted.imp of_decide_eq_true

theorem extend_injective : Function.Injective fun stem : String => stem ++ ".vm" := by
  intro a b same
  simpa using same

section

variable {names names' stems stems' : List String}

theorem exists_stems (whole : ∀ name ∈ names, '/' ∉ name.toList) : ∃ stems, Stems names stems := by
  have perm := List.mergeSort_perm (names.filter Path.isSource) fun a b => decide (a ≤ b)
  have sorted := pairwise_sort (names.filter Path.isSource)
  generalize (names.filter Path.isSource).mergeSort (fun a b => decide (a ≤ b)) = ordered at *
  have spelled : ordered ∈ Set.range (List.map (· ++ ".vm")) := by
    rw [Set.range_list_map]
    intro name inside
    obtain ⟨listed, source⟩ := List.mem_filter.mp (perm.mem_iff.mp inside)
    obtain ⟨stem, -, same⟩ := (Path.isSource_iff (whole name listed)).mp source
    exact ⟨stem, same.symm⟩
  obtain ⟨stems, rfl⟩ := spelled
  exact ⟨stems, perm, sorted.imp Text.le_iff_bytes_le.mp⟩

/-- Sorting puts the names of the source files in the order of their bytes. -/
theorem Stems.sort_eq (h : Stems names stems) :
    (names.filter Path.isSource).mergeSort (fun a b => decide (a ≤ b)) =
      stems.map (· ++ ".vm") := by
  apply List.Perm.eq_of_pairwise (fun _ _ _ _ => String.le_antisymm)
  · exact pairwise_sort _
  · exact h.sorted.imp Text.le_iff_bytes_le.mpr
  · exact (List.mergeSort_perm _ _).trans h.perm.symm

theorem Stems.unique (h : Stems names stems) (h' : Stems names stems') : stems = stems' := by
  apply List.map_injective_iff.mpr extend_injective
  exact h.sort_eq.symm.trans h'.sort_eq

theorem Stems.of_perm (h : Stems names stems)
    (same : (names'.filter Path.isSource).Perm (names.filter Path.isSource)) :
    Stems names' stems :=
  ⟨h.perm.trans same.symm, h.sorted⟩

/-- A stem holds no slash and is not empty. -/
theorem Stems.plain (h : Stems names stems) (whole : ∀ name ∈ names, '/' ∉ name.toList)
    {stem : String} (inside : stem ∈ stems) : '/' ∉ stem.toList ∧ stem ≠ "" := by
  obtain ⟨listed, source⟩ :=
    List.mem_filter.mp (h.perm.mem_iff.mp (List.mem_map_of_mem (f := (· ++ ".vm")) inside))
  have free := whole _ listed
  obtain ⟨other, nonempty, same⟩ := (Path.isSource_iff free).mp source
  obtain rfl : stem = other := extend_injective same
  rw [Path.toList_source] at free
  exact ⟨fun slash => free (List.mem_append_left _ slash), nonempty⟩

end

/-! ### Reading the source files -/

/-- What reading the source file with a stem in a directory gives: its commands, whose static
variables belong to the stem, or why there are none. -/
inductive Reading (tree : FileTree) (directory stem : String) :
    Except Failure (List Command) → Prop where
  | unreadable {e : FileError} :
    tree.readText (Path.join directory (stem ++ ".vm")) = .error e →
      Reading tree directory stem (.error (.read (Path.join directory (stem ++ ".vm")) e))
  | malformed {source : String} {e : SourceError} :
    tree.readText (Path.join directory (stem ++ ".vm")) = .ok source →
      Command.parse source stem = .error e →
      Reading tree directory stem (.error (.parse (Path.join directory (stem ++ ".vm")) e))
  | parsed {source : String} {list : List Command} :
    tree.readText (Path.join directory (stem ++ ".vm")) = .ok source →
      Command.parse source stem = .ok list → Reading tree directory stem (.ok list)

section

variable {tree : FileTree} {directory stem : String} {names stems : List String}
  {options : Options}

theorem Reading.commands_eq {result : Except Failure (List Command)}
    (h : Reading tree directory stem result) (whole : '/' ∉ stem.toList) (nonempty : stem ≠ "") :
    tree.commands (Path.join directory (stem ++ ".vm")) = result := by
  rw [commands, Path.stem?_join directory whole nonempty, Option.getD_some]
  cases h with
  | unreadable failed =>
    rw [failed]
    rfl
  | malformed read failed =>
    rw [read]
    exact congrArg (Except.mapError _) failed
  | parsed read parsed =>
    rw [read]
    exact congrArg (Except.mapError _) parsed

theorem Reading.exitCode_eq {failure : Failure} (h : Reading tree directory stem (.error failure)) :
    failure.exitCode = 1 := by
  cases h <;> rfl

theorem sources_eq (listed : tree.entries directory = .ok names) (h : Stems names stems)
    (nonempty : stems ≠ []) :
    tree.sources directory =
      .ok (stems.map fun stem => Path.join directory (stem ++ ".vm")) := by
  have found : (names.filter Path.isSource).isEmpty = false := by
    rw [List.isEmpty_eq_false_iff]
    intro none
    exact nonempty (List.map_eq_nil_iff.mp (List.perm_nil.mp (none ▸ h.perm)))
  rw [sources, if_pos (isDirectory_of_entries listed), listed]
  simp only [found, Bool.false_eq_true, if_false, ordered, h.sort_eq, List.map_map]
  rfl

/-- The assembly text of a directory is that of the commands of its source files in order. -/
theorem assembly_eq (listed : tree.entries directory = .ok names) (h : Stems names stems)
    (nonempty : stems ≠ []) :
    tree.assembly directory options = (do
      let lists ← stems.mapM fun stem => tree.commands (Path.join directory (stem ++ ".vm"))
      let program ← (Program.ofCommands lists.flatten options).mapError (.lowering directory)
      return program.text) := by
  rw [assembly, sources_eq listed h nonempty]
  change ((stems.map _).mapM tree.commands >>= _) = _
  rw [List.mapM_map]
  rfl

variable (listed : tree.entries directory = .ok names) (sources : Stems names stems)
  (whole : ∀ name ∈ names, '/' ∉ name.toList) (nonempty : stems ≠ [])

include listed sources whole nonempty

theorem assembly_of_readings {lists : List (List Command)}
    (reads : List.Forall₂ (fun stem list => Reading tree directory stem (.ok list)) stems lists) :
    tree.assembly directory options =
      ((Program.ofCommands lists.flatten options).mapError (.lowering directory)).map
        Program.text := by
  have each : stems.mapM (fun stem => tree.commands (Path.join directory (stem ++ ".vm"))) =
      .ok lists := by
    apply mapM_eq_ok_iff.mpr
    have plain := (List.forall₂_and_left stems lists).mpr
      ⟨fun stem inside => sources.plain whole inside, reads⟩
    apply plain.imp
    rintro stem list ⟨⟨free, named⟩, read⟩
    exact read.commands_eq free named
  rw [assembly_eq listed sources nonempty, each]
  change ((Program.ofCommands lists.flatten options).mapError _ >>= _) = _
  cases (Program.ofCommands lists.flatten options).mapError (Failure.lowering directory)
  all_goals rfl

theorem assembly_of_failure {front back : List String} {failure : Failure}
    (split : stems = front ++ stem :: back)
    (earlier : ∀ other ∈ front, ∃ list, Reading tree directory other (.ok list))
    (fails : Reading tree directory stem (.error failure)) :
    tree.assembly directory options = .error failure := by
  have each : stems.mapM (fun stem => tree.commands (Path.join directory (stem ++ ".vm"))) =
      .error failure := by
    rw [split]
    apply mapM_eq_error
    · intro other inside
      obtain ⟨list, read⟩ := earlier other inside
      obtain ⟨free, named⟩ := sources.plain whole (split ▸ List.mem_append_left _ inside)
      exact ⟨list, read.commands_eq free named⟩
    · obtain ⟨free, named⟩ := sources.plain whole (split ▸ List.mem_append_cons_self)
      exact fails.commands_eq free named
  rw [assembly_eq listed sources nonempty, each]
  rfl

omit whole in
/-- Two directories whose source files agree have one assembly text, or one failure. -/
theorem assembly_congr {other : FileTree} {names' : List String}
    (listed' : other.entries directory = .ok names')
    (same : (names'.filter Path.isSource).Perm (names.filter Path.isSource))
    (texts : ∀ stem ∈ stems, other.readText (Path.join directory (stem ++ ".vm")) =
      tree.readText (Path.join directory (stem ++ ".vm"))) :
    other.assembly directory options = tree.assembly directory options := by
  have each : stems.mapM (fun stem => other.commands (Path.join directory (stem ++ ".vm"))) =
      stems.mapM (fun stem => tree.commands (Path.join directory (stem ++ ".vm"))) := by
    apply mapM_congr
    intro stem inside
    rw [commands, commands, texts stem inside]
  rw [assembly_eq listed sources nonempty,
    assembly_eq listed' (sources.of_perm same) nonempty, each]

end

end FileTree

namespace CommandLine

open FileTree

/-- Translating and building fail alike when there is no assembly text, and write nothing. -/
theorem runOn_of_assembly_eq_error {read : List String → Except Declined Request}
    {tree : FileTree} {arguments : List String} {action : Action} {input : String}
    {output? : Option String} {options : Options} {failure : Failure}
    (h : tree.assembly input options = .error failure) (other : action ≠ .assemble)
    (made : read arguments = .ok ⟨action, input, output?, options⟩) :
    runOn read tree arguments = (⟨failure.exitCode, "", failure.report⟩, tree) := by
  rw [runOn_of_ok _ made]
  cases action with
  | translate =>
    simp only [run_translate, h]
    rfl
  | assemble => contradiction
  | build =>
    simp only [run_build, h]
    rfl

/-- Source files of a directory are translated in the order of the bytes of their names, in one
session, each under its own stem. The first of them that is not read or parsed decides the failure,
which leaves the tree as it is. Nothing else in the directory plays a part, nor does the order of
its entries, whose names hold no slash. -/
theorem translates_in_byte_order {tree : FileTree} {directory : String} {names : List String}
    (options : Options) (listed : tree.entries directory = .ok names)
    (whole : ∀ name ∈ names, '/' ∉ name.toList) (present : ∃ name ∈ names, Path.isSource name) :
    ∃ stems, Stems names stems ∧
      (∀ lists, List.Forall₂ (fun stem list => Reading tree directory stem (.ok list)) stems lists →
        (assemblyOf directory options : Task String).run.run tree =
            (((Program.ofCommands lists.flatten options).mapError (.lowering directory)).map
              Program.text, tree) ∧
          ∀ program, Program.ofCommands lists.flatten options = .ok program →
            (program.blocks.map Block.title).count "bootstrap" =
                (if options.bootstrap then 1 else 0) ∧
              (program.blocks.map Block.title).count "end program" =
                (if options.terminate then 1 else 0)) ∧
      (∀ front stem back failure, stems = front ++ stem :: back →
        (∀ earlier ∈ front, ∃ list, Reading tree directory earlier (.ok list)) →
        Reading tree directory stem (.error failure) →
        (assemblyOf directory options : Task String).run.run tree = (.error failure, tree) ∧
          ∀ read arguments action output?, action ≠ .assemble →
            read arguments = .ok ⟨action, directory, output?, options⟩ →
            runOn read tree arguments = (⟨1, "", failure.report⟩, tree)) ∧
      ∀ (other : FileTree) names', other.entries directory = .ok names' →
        (names'.filter Path.isSource).Perm (names.filter Path.isSource) →
        (∀ stem ∈ stems, other.readText (Path.join directory (stem ++ ".vm")) =
          tree.readText (Path.join directory (stem ++ ".vm"))) →
        ((assemblyOf directory options : Task String).run.run other).1 =
          ((assemblyOf directory options : Task String).run.run tree).1 := by
  obtain ⟨stems, sources⟩ := exists_stems whole
  have nonempty : stems ≠ [] := by
    rintro rfl
    obtain ⟨name, inside, source⟩ := present
    exact List.not_mem_nil (sources.perm.mem_iff.mpr (List.mem_filter.mpr ⟨inside, source⟩))
  refine ⟨stems, sources, ?_, ?_, ?_⟩
  · intro lists reads
    rw [run_assemblyOf, assembly_of_readings listed sources whole nonempty reads]
    exact ⟨rfl, fun program translated => Program.count_titles translated⟩
  · intro front stem back failure split earlier fails
    have failed : tree.assembly directory options = .error failure :=
      assembly_of_failure listed sources whole nonempty split earlier fails
    refine ⟨by rw [run_assemblyOf, failed], fun read arguments action output? other made => ?_⟩
    rw [runOn_of_assembly_eq_error failed other made, fails.exitCode_eq]
  · intro other names' listed' same texts
    rw [run_assemblyOf, run_assemblyOf, assembly_congr listed sources nonempty listed' same texts]

/-- A directory that lists a malformed source file first, then one that is no text, and a good one
last. -/
def mixedDirectory : FileTree :=
  ⟨[(["d"], .directory), (["d", "b.vm"], .file (some "push\n")), (["d", "Z.vm"], .file none),
    (["d", "notes.txt"], .file (some "push\n")), (["d", "A.vm"], .file (some "add\n"))], []⟩

theorem translates_in_byte_order_mixedDirectory :
    mixedDirectory.entries "d" = .ok ["b.vm", "Z.vm", "notes.txt", "A.vm"] ∧
      (assemblyOf "d" {} : Task String).run.run mixedDirectory =
        (.error (.read "d/Z.vm" .notText), mixedDirectory) := by
  have listed : mixedDirectory.entries "d" = .ok ["b.vm", "Z.vm", "notes.txt", "A.vm"] := by
    decide +kernel
  have order : Stems ["b.vm", "Z.vm", "notes.txt", "A.vm"] ["A", "Z", "b"] :=
    ⟨by decide +kernel, by decide +kernel⟩
  obtain ⟨stems, sources, -, fails, -⟩ :=
    translates_in_byte_order {} listed (by decide) (by decide +kernel)
  obtain rfl := sources.unique order
  have text : mixedDirectory.readText (Path.join "d" ("A" ++ ".vm")) = .ok "add\n" := by
    decide +kernel
  have good : Reading mixedDirectory "d" "A" (.ok [.operator .add]) :=
    .parsed text (by decide +kernel)
  have bad : Reading mixedDirectory "d" "Z" (.error (.read "d/Z.vm" .notText)) :=
    .unreadable (by decide +kernel)
  refine ⟨listed, (fails ["A"] "Z" ["b"] _ rfl ?_ bad).1⟩
  intro other inside
  obtain rfl := List.mem_singleton.mp inside
  exact ⟨_, good⟩

end CommandLine

end HackToolchain
