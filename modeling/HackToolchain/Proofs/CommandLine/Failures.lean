import HackToolchain.Proofs.CommandLine.Execution
import HackToolchain.Proofs.Files.Writes

/-! What command lines leave when they fail. Only building has written anything by then, and only
the whole assembly text to the file that belongs to it. -/

namespace HackToolchain

open CommandLine

namespace FileTree

theorem save_eq_error {tree : FileTree} {path text report : String} {failure : Failure}
    (h : (tree.save path text report).1 = .error failure) :
    (tree.save path text report).2 = tree := by
  unfold save at h ⊢
  cases wrote : tree.writeText path text with
  | ok after =>
    simp only [wrote] at h
    cases h
  | error e => rfl

end FileTree

namespace CommandLine

variable {tree : FileTree} {input : String} {output? : Option String} {options : Options}
  {failure : Failure}

/-- Translating and assembling write last. -/
theorem run_eq_error {request : Request} (other : request.action ≠ .build)
    (h : ((request.run : Task String).run.run tree).1 = .error failure) :
    ((request.run : Task String).run.run tree).2 = tree := by
  obtain ⟨action, input, output?, options⟩ := request
  cases action with
  | translate =>
    rw [run_translate] at h ⊢
    cases translated : tree.assembly input options with
    | error e => rfl
    | ok text =>
      rw [translated] at h
      exact FileTree.save_eq_error h
  | assemble =>
    rw [run_assemble] at h ⊢
    cases assembled : tree.machineCode input with
    | error e => rfl
    | ok image =>
      rw [assembled] at h
      exact FileTree.save_eq_error h
  | build => contradiction

/-- Building may have written the assembly text when it fails. -/
theorem run_build_eq_error
    (h : ((Request.run ⟨.build, input, output?, options⟩ : Task String).run.run tree).1 =
      .error failure) :
    ((Request.run ⟨.build, input, output?, options⟩ : Task String).run.run tree).2 = tree ∨
      ∃ text, tree.assembly input options = .ok text ∧
        tree.writeText (tree.outputBeside input "asm") text =
          .ok ((Request.run ⟨.build, input, output?, options⟩ : Task String).run.run tree).2 := by
  rw [run_build] at h ⊢
  dsimp only at h ⊢
  cases translated : tree.assembly input options with
  | error e => exact .inl rfl
  | ok text =>
    dsimp only
    cases wrote : tree.writeText (tree.outputBeside input "asm") text with
    | error e => exact .inl rfl
    | ok after =>
      refine .inr ⟨text, rfl, ?_⟩
      rw [translated] at h
      dsimp only at h
      rw [wrote] at h
      cases assembled : assemble text with
      | error e => exact wrote
      | ok image =>
        rw [assembled] at h
        exact wrote.trans (congrArg _ (FileTree.save_eq_error h).symm)

/-- A command line fails with the failure of the request that it makes. -/
theorem exists_failure {read : List String → Except Declined Request} {arguments : List String}
    (h : (runOn read tree arguments).1.exitCode ∉ [0, 2]) :
    ∃ request failure, read arguments = .ok request ∧
      ((request.run : Task String).run.run tree).1 = .error failure ∧
      (runOn read tree arguments).2 = ((request.run : Task String).run.run tree).2 := by
  cases made : read arguments with
  | error declined =>
    rw [runOn_of_error _ made] at h
    cases declined <;> simp [Declined.outcome] at h
  | ok request =>
    rw [runOn_of_ok _ made] at h ⊢
    cases result : ((request.run : Task String).run.run tree).1 with
    | ok report =>
      simp [result, Outcome.ofResult] at h
    | error failure => exact ⟨request, failure, rfl, result, rfl⟩

/-- A command line that fails has written nothing, unless it builds: then it may have written the
whole assembly text to the file that belongs to it, and has written to no other. An answer and a
report on how a command line is put together are no failures. -/
theorem failed_run_writes {read : List String → Except Declined Request} {tree : FileTree}
    {arguments : List String} (failed : (runOn read tree arguments).1.exitCode ∉ [0, 2]) :
    ∃ request, read arguments = .ok request ∧
      (request.action ≠ .build → (runOn read tree arguments).2 = tree) ∧
      (request.action = .build →
        (∀ place, tree.target (request.output?.getD (tree.outputBeside request.input "hack")) =
            .ok place → tree.target (tree.outputBeside request.input "asm") ≠ .ok place →
          (runOn read tree arguments).2.node? place = tree.node? place) ∧
        ((runOn read tree arguments).2 = tree ∨ ∃ text place,
          (assemblyOf request.input request.options : Task String).run.run tree =
            (.ok text, tree) ∧
          tree.target (tree.outputBeside request.input "asm") = .ok place ∧
          FileTree.Written tree (runOn read tree arguments).2 place text)) := by
  obtain ⟨⟨action, input, output?, options⟩, failure, made, h, left⟩ := exists_failure failed
  refine ⟨_, made, ?_, ?_⟩
  · intro other
    rw [left]
    exact run_eq_error other h
  · rintro rfl
    rw [left]
    rcases run_build_eq_error h with same | ⟨text, translated, wrote⟩
    · rw [same]
      exact ⟨fun _ _ _ => rfl, .inl rfl⟩
    · obtain ⟨place, target, written⟩ := FileTree.written_of_writeText wrote
      refine ⟨fun other _ apart => written.elsewhere other ?_,
        .inr ⟨text, place, ?_, target, written⟩⟩
      · rintro rfl
        exact apart target
      · rw [run_assemblyOf, translated]

/-- A source file whose label is no symbol, which the assembler refuses, and an old output. -/
def refusedLabel : FileTree :=
  ⟨[(["Main.vm"], .file (some "label 1\n")), (["old.hack"], .file (some "0000000000000000\n"))], []⟩

theorem failed_run_writes_keptOutput :
    let ran := runOn Request.ofArguments refusedLabel
      ["build", "Main.vm", "-o", "old.hack", "--no-terminate"]
    ran.1.exitCode = 1 ∧ ran.2.node? ["old.hack"] = refusedLabel.node? ["old.hack"] ∧
      ∃ text, (assemblyOf "Main.vm" ⟨false, false⟩ : Task String).run.run refusedLabel =
          (.ok text, refusedLabel) ∧
        FileTree.Written refusedLabel ran.2 ["Main.asm"] text := by
  intro ran
  have failed : ran.1.exitCode = 1 := by decide +kernel
  have changed : ran.2.node? ["Main.asm"] ≠ refusedLabel.node? ["Main.asm"] := by decide +kernel
  have fails : ran.1.exitCode ∉ [0, 2] := by simp [failed]
  obtain ⟨request, made, -, build⟩ := failed_run_writes fails
  cases made
  obtain ⟨kept, wrote⟩ := build rfl
  have middle : refusedLabel.target (refusedLabel.outputBeside "Main.vm" "asm") =
      .ok ["Main.asm"] := by
    decide +kernel
  refine ⟨failed, kept ["old.hack"] (by decide +kernel) (by decide +kernel), ?_⟩
  rcases wrote with same | ⟨text, place, translated, target, written⟩
  · exact absurd (congrArg (·.node? ["Main.asm"]) same) changed
  · cases middle.symm.trans target
    exact ⟨text, translated, written⟩

/-- Another spelling of the path of the assembly file leads to no other file: a build that fails
creates its output then, with the assembly text. -/
theorem respelled_output_written :
    let ran := runOn Request.ofArguments refusedLabel
      ["build", "Main.vm", "-o", "./Main.asm", "--no-terminate"]
    ran.1.exitCode = 1 ∧ refusedLabel.outputBeside "Main.vm" "asm" ≠ "./Main.asm" ∧
      refusedLabel.readText "./Main.asm" = .error .notFound ∧
      ran.2.readText "./Main.asm" = .ok "// begin label 1\n(1)\n// end label 1\n" := by
  intro ran
  refine ⟨?_, ?_, ?_, ?_⟩
  all_goals decide +kernel

end CommandLine

end HackToolchain
