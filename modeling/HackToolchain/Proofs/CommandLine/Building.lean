import HackToolchain.Proofs.CommandLine.Execution
import HackToolchain.Proofs.Files.Extensions
import HackToolchain.Proofs.Files.Writes

/-! Building against translating and then assembling. The file that translating writes is read
back, and the output that belongs to it is the one that belongs to the input, so that the two ways
leave the same tree and succeed together. -/

namespace HackToolchain

open CommandLine

namespace FileTree

variable {tree after : FileTree} {input text : String} {options : Options} {place : Place}

theorem commands_eq_ok {path : String} {list : List Command} :
    tree.commands path = .ok list ↔ ∃ source, tree.readText path = .ok source ∧
      Command.parse source ((Path.stem? path).getD "") = .ok list := by
  rw [commands, Except.bind_eq_ok]
  simp only [Except.mapError_eq_ok]

/-- An input that is no directory and has an assembly text is a source file that is read. -/
theorem exists_source (h : tree.assembly input options = .ok text)
    (file : tree.isDirectory input = false) :
    Path.isSource input = true ∧ ∃ source, tree.readText input = .ok source := by
  obtain ⟨paths, found, later⟩ := Except.bind_eq_ok.mp h
  obtain ⟨lists, read, -⟩ := Except.bind_eq_ok.mp later
  rw [sources, file, if_neg Bool.false_ne_true] at found
  split at found
  · rename_i source
    cases found
    obtain ⟨list, _, here, -, -⟩ := mapM_cons_eq_ok.mp read
    obtain ⟨text, readable, -⟩ := commands_eq_ok.mp here
    exact ⟨source, text, readable⟩
  · cases found

/-- The name that the files which belong to a directory have. -/
theorem exists_proper (input : String) : ∃ name, Path.Proper name ∧
    ((Path.fileName? input).map String.ofList).getD "out" = String.ofList name := by
  cases named : Path.fileName? input with
  | none => exact ⟨"out".toList, ⟨by decide, by decide, by decide⟩, rfl⟩
  | some name => exact ⟨name, Path.proper_of_fileName? named, rfl⟩

/-- The output that belongs to the assembly file of an input belongs to the input. -/
theorem outputBeside_outputBeside (h : tree.assembly input options = .ok text)
    (target : tree.target (tree.outputBeside input "asm") = .ok place)
    (written : Written tree after place text) :
    after.outputBeside (tree.outputBeside input "asm") "hack" = tree.outputBeside input "hack" := by
  rw [outputBeside, written.isDirectory target, if_neg Bool.false_ne_true]
  cases file : tree.isDirectory input with
  | true =>
    obtain ⟨name, proper, same⟩ := exists_proper input
    simp only [outputBeside, file, if_true, same]
    exact Path.withExtension_join input "hack" proper (by decide) (by decide)
  | false =>
    obtain ⟨source, _, readable⟩ := exists_source h file
    simp only [outputBeside, file, Bool.false_eq_true, if_false]
    exact Path.withExtension_withExtension "hack" source
      (fun _ _ split => not_isVacant_of_readText split readable) (by decide) (by decide)

theorem save_agree (tree : FileTree) (path text report report' : String) :
    ((tree.save path text report).1.map fun _ => ()) =
        ((tree.save path text report').1.map fun _ => ()) ∧
      (tree.save path text report).2 = (tree.save path text report').2 := by
  unfold save
  cases tree.writeText path text
  all_goals exact ⟨rfl, rfl⟩

end FileTree

namespace CommandLine

/-! ### Readings of command lines -/

/-- A reading that takes translating and building alike, and any path behind two dashes as an
input. -/
structure Alike (read : List String → Except Declined Request) : Prop where
  build : ∀ rest request, read ("build" :: rest) = .ok request → request.action = .build
  translate : ∀ rest, read ("translate" :: rest) =
    (read ("build" :: rest)).map fun request => { request with action := .translate }
  assemble : ∀ path, path ≠ "" →
    read ["assemble", "--", path] = .ok ⟨.assemble, path, none, ⟨false, true⟩⟩

theorem action_of_request {arguments : Arguments} {action : Action} {request : Request}
    (h : arguments.request action = .ok request) : request.action = action := by
  rw [Arguments.request] at h
  split at h
  · cases h
    rfl
  · cases h

theorem request_translate (arguments : Arguments) : arguments.request .translate =
    (arguments.request .build).map fun request => { request with action := .translate } := by
  rw [Arguments.request, Arguments.request]
  cases arguments.input? <;> rfl

theorem alike_ofArguments : Alike Request.ofArguments where
  build rest request made := by
    obtain ⟨arguments, -, asked⟩ := Except.bind_eq_ok.mp made
    exact action_of_request asked
  translate rest := by
    show (Arguments.read true {} rest >>= fun arguments => arguments.request .translate) =
      (Arguments.read true {} rest >>= fun arguments => arguments.request .build).map _
    cases Arguments.read true {} rest with
    | error declined => rfl
    | ok arguments => exact request_translate arguments
  assemble path nonempty := by
    have named : path.isEmpty = false := by simpa using nonempty
    have reads : Arguments.read false {} ["--", path] = .ok ⟨some path, none, false, false⟩ := by
      simp [Arguments.read, Arguments.addInput, named]
    show (Arguments.read false {} ["--", path] >>= fun arguments =>
      arguments.request .assemble) = _
    rw [reads]
    rfl

/-- Translating fails as building does before anything is written, or writes the assembly text. -/
theorem run_translate_cases (tree : FileTree) (input : String) (options : Options) :
    (∃ failure,
      (Request.run ⟨.translate, input, none, options⟩ : Task String).run.run tree =
          (.error failure, tree) ∧
        (Request.run ⟨.build, input, none, options⟩ : Task String).run.run tree =
          (.error failure, tree)) ∨
    ∃ path text after, path = tree.outputBeside input "asm" ∧
      tree.assembly input options = .ok text ∧ tree.writeText path text = .ok after ∧
      (Request.run ⟨.translate, input, none, options⟩ : Task String).run.run tree =
        (.ok s!"Translated {input} -> {path}\n", after) := by
  rw [run_translate, run_build]
  dsimp only [Option.getD_none]
  cases translated : tree.assembly input options with
  | error failure => exact .inl ⟨failure, rfl, rfl⟩
  | ok text =>
    dsimp only [FileTree.save]
    cases wrote : tree.writeText (tree.outputBeside input "asm") text with
    | error e => exact .inl ⟨_, rfl, rfl⟩
    | ok after => exact .inr ⟨_, text, after, rfl, rfl, wrote, rfl⟩

/-- Once an assembly text is written, building goes on as assembling it does, but for the report of
success. -/
theorem run_build_agree {tree after : FileTree} {input text : String} {options : Options}
    (translated : tree.assembly input options = .ok text)
    (wrote : tree.writeText (tree.outputBeside input "asm") text = .ok after)
    (options' : Options) :
    let whole := (Request.run ⟨.build, input, none, options⟩ : Task String).run.run tree
    let second := (Request.run ⟨.assemble, tree.outputBeside input "asm", none, options'⟩ :
      Task String).run.run after
    (whole.1.map fun _ => ()) = (second.1.map fun _ => ()) ∧ whole.2 = second.2 := by
  obtain ⟨place, target, written⟩ := FileTree.written_of_writeText wrote
  have beside := FileTree.outputBeside_outputBeside translated target written
  have read : after.machineCode (tree.outputBeside input "asm") =
      (assemble text).mapError (.assembly (tree.outputBeside input "asm")) := by
    rw [FileTree.machineCode, written.readText target]
  dsimp only
  rw [run_build, run_assemble]
  simp only [translated, wrote, read, beside, Option.getD_none]
  cases assemble text with
  | error e => exact ⟨rfl, rfl⟩
  | ok image => exact after.save_agree _ _ _ _

theorem Outcome.ofResult_agree {result result' : Except Failure String}
    (h : (result.map fun _ => ()) = (result'.map fun _ => ())) :
    ((ofResult result).exitCode = 0 ↔ (ofResult result').exitCode = 0) ∧
      (ofResult result).stderr = (ofResult result').stderr := by
  cases result with
  | ok report =>
    cases result' with
    | ok report' => exact ⟨Iff.rfl, rfl⟩
    | error failure' => cases h
  | error failure =>
    cases result' with
    | ok report' => cases h
    | error failure' =>
      cases h
      exact ⟨Iff.rfl, rfl⟩

/-- Building without an output of its own leaves what translating leaves if that makes no request or
fails. Otherwise translating has written the assembly text to one path, and building leaves the tree
that any command line leaves which assembles this path next; it fails when that fails, and for the
same reason. -/
theorem build_eq_translate_assemble {read : List String → Except Declined Request}
    (alike : Alike read) {tree after : FileTree} {rest : List String} {first : Outcome}
    (beside : ∀ request, read ("build" :: rest) = .ok request → request.output? = none)
    (translating : runOn read tree ("translate" :: rest) = (first, after)) :
    ((first.exitCode ≠ 0 ∨ ∃ declined, read ("translate" :: rest) = .error declined) →
      runOn read tree ("build" :: rest) = (first, after)) ∧
    ∀ request, read ("translate" :: rest) = .ok request → first.exitCode = 0 →
      ∃ path text place,
      (assemblyOf request.input request.options : Task String).run.run tree = (.ok text, tree) ∧
      path = tree.outputBeside request.input "asm" ∧
      first.stdout = s!"Translated {request.input} -> {path}\n" ∧
      tree.target path = .ok place ∧ FileTree.Written tree after place text ∧
      read ["assemble", "--", path] = .ok ⟨.assemble, path, none, ⟨false, true⟩⟩ ∧
      ∀ again options second last,
        read again = .ok ⟨.assemble, path, none, options⟩ →
        runOn read after again = (second, last) →
        ∃ whole, runOn read tree ("build" :: rest) = (whole, last) ∧
          (whole.exitCode = 0 ↔ second.exitCode = 0) ∧ whole.stderr = second.stderr := by
  cases made : read ("build" :: rest) with
  | error declined =>
    have unmade : read ("translate" :: rest) = .error declined := by
      rw [alike.translate, made]
      rfl
    rw [runOn_of_error _ unmade] at translating
    cases translating
    refine ⟨fun _ => runOn_of_error _ made, fun request remade => ?_⟩
    cases unmade.symm.trans remade
  | ok request =>
    obtain ⟨action, input, output?, options⟩ := request
    obtain rfl : action = .build := alike.build rest _ made
    obtain rfl : output? = none := beside _ made
    have remade : read ("translate" :: rest) = .ok ⟨.translate, input, none, options⟩ := by
      rw [alike.translate, made]
      rfl
    rw [remade]
    rw [runOn_of_ok _ remade] at translating
    rw [runOn_of_ok _ made]
    rcases run_translate_cases tree input options with
      ⟨failure, failed, failed'⟩ | ⟨path, text, next, rfl, translated, wrote, done⟩
    · rw [failed] at translating
      rw [failed']
      cases translating
      exact ⟨fun _ => rfl, fun _ _ done => absurd done failure.exitCode_pos.ne'⟩
    · rw [done] at translating
      cases translating
      refine ⟨?_, fun request asked _ => ?_⟩
      · rintro (failed | ⟨declined, failed⟩)
        · exact absurd rfl failed
        · cases failed
      · cases asked
        obtain ⟨place, target, written⟩ := FileTree.written_of_writeText wrote
        refine ⟨_, text, place, ?_, rfl, rfl, target, written,
          alike.assemble _ (written.path_ne_empty target), ?_⟩
        · rw [run_assemblyOf, translated]
        · intro again options' second last asked assembling
          obtain ⟨results, trees⟩ := run_build_agree translated wrote options'
          rw [runOn_of_ok _ asked] at assembling
          cases assembling
          exact ⟨_, by rw [trees], Outcome.ofResult_agree results⟩

/-- A directory with a dot in its name, a source file and a file that is no text. -/
def dottedDirectory : FileTree :=
  ⟨[(["a.b"], .directory), (["a.b", "Main.vm"], .file (some "push constant 1\n")),
    (["a.b", "notes.txt"], .file none)], []⟩

def dottedArguments : List String := ["a.b/.", "--no-terminate"]

theorem build_eq_translate_assemble_dottedDirectory :
    let first := runOn Request.ofArguments dottedDirectory ("translate" :: dottedArguments)
    let second := runOn Request.ofArguments first.2 ["assemble", "a.b/./a.b.asm"]
    first.1.exitCode = 0 ∧ second.1.exitCode = 0 ∧
      ∃ whole, runOn Request.ofArguments dottedDirectory ("build" :: dottedArguments) =
          (whole, second.2) ∧ whole.exitCode = 0 := by
  intro first second
  have beside : ∀ request, Request.ofArguments ("build" :: dottedArguments) = .ok request →
      request.output? = none := by
    intro request made
    cases made
    rfl
  have translated : first.1.exitCode = 0 := by decide +kernel
  have assembled : second.1.exitCode = 0 := by decide +kernel
  have translating : runOn Request.ofArguments dottedDirectory ("translate" :: dottedArguments) =
      (first.1, first.2) := rfl
  have made : Request.ofArguments ("translate" :: dottedArguments) =
      .ok ⟨.translate, "a.b/.", none, ⟨false, false⟩⟩ := rfl
  obtain ⟨-, onward⟩ := build_eq_translate_assemble alike_ofArguments beside translating
  obtain ⟨path, text, place, -, output, -, -, -, -, next⟩ := onward _ made translated
  obtain rfl : path = "a.b/./a.b.asm" := output.trans (by decide +kernel)
  obtain ⟨whole, built, succeeds, -⟩ :=
    next ["assemble", "a.b/./a.b.asm"] ⟨false, true⟩ second.1 second.2 rfl rfl
  exact ⟨translated, assembled, whole, built, succeeds.mpr assembled⟩

end CommandLine

end HackToolchain
