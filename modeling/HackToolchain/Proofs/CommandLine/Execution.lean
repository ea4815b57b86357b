import HackToolchain.CommandLine.Run
import HackToolchain.Files.Tree
import HackToolchain.Proofs.Except

/-! Requests on a file tree. What a request reads is a function of the tree, which stays as it is
meanwhile; the tree changes by writes alone, and each request is an equation over the two. -/

namespace HackToolchain

open CommandLine

namespace FileTree

/-! ### What is read -/

/-- The output that belongs to an input. -/
def outputBeside (tree : FileTree) (input extension : String) : String :=
  if tree.isDirectory input then
    Path.join input (((Path.fileName? input).map String.ofList).getD "out" ++ "." ++ extension)
  else Path.withExtension input extension

/-- The paths of names in a directory, in the order of the names. -/
def ordered (directory : String) (names : List String) : List String :=
  (names.mergeSort fun a b => decide (a ≤ b)).map (Path.join directory)

/-- The source files of an input. -/
def sources (tree : FileTree) (input : String) : Except Failure (List String) :=
  if tree.isDirectory input then
    match tree.entries input with
    | .error e => .error (.read input e)
    | .ok names =>
      if (names.filter Path.isSource).isEmpty then .error (.noSources input)
      else .ok (ordered input (names.filter Path.isSource))
  else if Path.isSource input then .ok [input]
  else .error (.notSource input)

/-- The commands of a source file. -/
def commands (tree : FileTree) (path : String) : Except Failure (List Command) := do
  let source ← (tree.readText path).mapError (.read path)
  (Command.parse source ((Path.stem? path).getD "")).mapError (.parse path)

/-- The assembly text of an input. -/
def assembly (tree : FileTree) (input : String) (options : Options) : Except Failure String := do
  let lists ← (← tree.sources input).mapM tree.commands
  let program ← (Program.ofCommands lists.flatten options).mapError (.lowering input)
  return program.text

/-- The machine code of an assembly file. -/
def machineCode (tree : FileTree) (path : String) : Except Failure Image :=
  match tree.readText path with
  | .error e => .error (.read path e)
  | .ok source => (assemble source).mapError (.assembly path)

/-- Writes the text that a request made and reports its success. -/
def save (tree : FileTree) (path text report : String) : Except Failure String × FileTree :=
  match tree.writeText path text with
  | .ok after => (.ok report, after)
  | .error e => (.error (.write path e), tree)

end FileTree

namespace CommandLine

section

variable {α β : Type}

/-- A computation that may fail and can use a file tree. -/
abbrev Task (α : Type) := ExceptT Failure (StateM FileTree) α

theorem run_bind (task : Task α) (next : α → Task β) (tree : FileTree) :
    (task >>= next).run.run tree =
      match task.run.run tree with
      | (.ok a, after) => (next a).run.run after
      | (.error e, after) => (.error e, after) := by
  rw [ExceptT.run_bind, StateT.run_bind]
  generalize task.run.run tree = result
  obtain ⟨outcome, after⟩ := result
  cases outcome with
  | error e => rfl
  | ok a => rfl

/-- A task that leaves the tree as it is; its result is a view of the tree. -/
def Looks (task : Task α) (view : FileTree → Except Failure α) : Prop :=
  ∀ tree, task.run.run tree = (view tree, tree)

theorem Looks.run_bind {task : Task α} {view : FileTree → Except Failure α} (h : Looks task view)
    (next : α → Task β) (tree : FileTree) :
    (task >>= next).run.run tree =
      match view tree with
      | .ok a => (next a).run.run tree
      | .error e => (.error e, tree) := by
  rw [CommandLine.run_bind, h tree]
  cases view tree
  all_goals rfl

theorem looks_pure (value : Except Failure α) : Looks (ExceptT.mk (pure value)) fun _ => value :=
  fun _ => rfl

theorem Looks.bind {task : Task α} {next : α → Task β} {view : FileTree → Except Failure α}
    {views : α → FileTree → Except Failure β} (first : Looks task view)
    (later : ∀ a, Looks (next a) (views a)) :
    Looks (task >>= next) fun tree => view tree >>= fun a => views a tree := by
  intro tree
  rw [first.run_bind]
  dsimp only
  cases view tree with
  | error e => rfl
  | ok a => exact later a tree

theorem Looks.mapM {task : α → Task β} {view : FileTree → α → Except Failure β}
    (each : ∀ a, Looks (task a) fun tree => view tree a) (items : List α) :
    Looks (items.mapM task) fun tree => items.mapM (view tree) := by
  induction items with
  | nil => exact fun _ => rfl
  | cons item rest ih =>
    simp only [List.mapM_cons]
    exact (each item).bind fun _ => ih.bind fun _ => fun _ => rfl

end

theorem looks_isDirectory (path : String) :
    Looks (liftM (Files.isDirectory (m := StateM FileTree) path))
      fun tree => .ok (tree.isDirectory path) := fun _ => rfl

theorem looks_readFile (path : String) :
    Looks (readFile path) fun tree => (tree.readText path).mapError (.read path) := fun _ => rfl

theorem looks_entries (path : String) :
    Looks (ExceptT.mk (Except.mapError (.read path) <$> Files.entries path))
      fun tree => (tree.entries path).mapError (.read path) := fun _ => rfl

theorem looks_defaultOutput (input extension : String) :
    Looks (defaultOutput input extension) fun tree => .ok (tree.outputBeside input extension) := by
  intro tree
  rw [defaultOutput, (looks_isDirectory input).run_bind]
  dsimp only
  rw [FileTree.outputBeside]
  split
  all_goals rfl

theorem looks_sourceFiles (input : String) :
    Looks (sourceFiles input) fun tree => tree.sources input := by
  intro tree
  rw [sourceFiles, (looks_isDirectory input).run_bind]
  dsimp only
  rw [FileTree.sources]
  split
  · rw [(looks_entries input).run_bind]
    cases tree.entries input with
    | error e => rfl
    | ok names =>
      simp only [Except.mapError]
      split
      all_goals rfl
  · cases Path.isSource input
    all_goals rfl

theorem looks_readCommands (path : String) :
    Looks (readCommands path) fun tree => tree.commands path :=
  (looks_readFile path).bind fun _ => looks_pure _

theorem looks_assemblyOf (input : String) (options : Options) :
    Looks (assemblyOf input options) fun tree => tree.assembly input options :=
  (looks_sourceFiles input).bind fun _ =>
    (Looks.mapM looks_readCommands _).bind fun _ => (looks_pure _).bind fun _ _ => rfl

theorem looks_assembleText (path source : String) :
    Looks (assembleText path source) fun _ => (assemble source).mapError (.assembly path) :=
  looks_pure _

/-! ### What is written -/

theorem run_writeText (path text : String) (tree : FileTree) :
    (Files.writeText (m := StateM FileTree) path text).run tree =
      match tree.writeText path text with
      | .ok after => (.ok (), after)
      | .error e => (.error e, tree) := by
  change StateT.run (match tree.writeText path text with
    | .ok after => do
      set after
      return .ok ()
    | .error e => return .error e : StateM FileTree (Except FileError Unit)) tree = _
  cases tree.writeText path text
  all_goals rfl

theorem run_writeFile (path text : String) (tree : FileTree) :
    (writeFile path text : Task Unit).run.run tree =
      match tree.writeText path text with
      | .ok after => (.ok (), after)
      | .error e => (.error (.write path e), tree) := by
  rw [writeFile, ExceptT.run_mk, StateT.run_map, run_writeText]
  cases tree.writeText path text
  all_goals rfl

theorem run_save (path text report : String) (tree : FileTree) :
    (do
      writeFile path text
      return report : Task String).run.run tree = tree.save path text report := by
  rw [run_bind, run_writeFile, FileTree.save]
  cases tree.writeText path text
  all_goals rfl

variable (input : String) (output? : Option String) (options : Options) (tree : FileTree)

theorem run_assemblyOf : (assemblyOf input options : Task String).run.run tree =
    (tree.assembly input options, tree) :=
  looks_assemblyOf input options tree

theorem looks_output (extension : String) :
    Looks (output?.elim (defaultOutput input extension) pure)
      fun tree => .ok (output?.getD (tree.outputBeside input extension)) := by
  cases output? with
  | none => exact looks_defaultOutput input extension
  | some output => exact fun _ => rfl

theorem run_translate :
    (Request.run ⟨.translate, input, output?, options⟩ : Task String).run.run tree =
      let output := output?.getD (tree.outputBeside input "asm")
      match tree.assembly input options with
      | .error failure => (.error failure, tree)
      | .ok text => tree.save output text s!"Translated {input} -> {output}\n" := by
  rw [Request.run]
  dsimp only
  rw [(looks_output input output? "asm").run_bind]
  dsimp only
  rw [(looks_assemblyOf input options).run_bind]
  cases tree.assembly input options with
  | error failure => rfl
  | ok text => exact run_save _ _ _ tree

theorem run_assemble :
    (Request.run ⟨.assemble, input, output?, options⟩ : Task String).run.run tree =
      let output := output?.getD (tree.outputBeside input "hack")
      match tree.machineCode input with
      | .error failure => (.error failure, tree)
      | .ok image =>
        tree.save output image.text s!"Assembled {input} -> {output} ({image.size} words)\n" := by
  rw [Request.run]
  dsimp only
  rw [(looks_output input output? "hack").run_bind]
  dsimp only
  rw [(looks_readFile input).run_bind, FileTree.machineCode]
  cases tree.readText input with
  | error e => rfl
  | ok source =>
    rw [Except.mapError]
    dsimp only
    rw [(looks_assembleText input source).run_bind]
    cases (assemble source).mapError (Failure.assembly input) with
    | error failure => rfl
    | ok image => exact run_save _ _ _ tree

theorem run_build :
    (Request.run ⟨.build, input, output?, options⟩ : Task String).run.run tree =
      let middle := tree.outputBeside input "asm"
      let output := output?.getD (tree.outputBeside input "hack")
      match tree.assembly input options with
      | .error failure => (.error failure, tree)
      | .ok text =>
        match tree.writeText middle text with
        | .error e => (.error (.write middle e), tree)
        | .ok after =>
          match assemble text with
          | .error e => (.error (.assembly middle e), after)
          | .ok image => after.save output image.text
              s!"Built {input} -> {middle} -> {output} ({image.size} words)\n" := by
  rw [Request.run]
  dsimp only
  rw [(looks_defaultOutput input "asm").run_bind]
  dsimp only
  rw [(looks_output input output? "hack").run_bind]
  dsimp only
  rw [(looks_assemblyOf input options).run_bind]
  cases tree.assembly input options with
  | error failure => rfl
  | ok text =>
    dsimp only
    rw [run_bind, run_writeFile]
    cases tree.writeText (tree.outputBeside input "asm") text with
    | error e => rfl
    | ok after =>
      dsimp only
      rw [(looks_assembleText _ text).run_bind]
      cases assemble text with
      | error e => rfl
      | ok image => exact run_save _ _ _ after

/-! ### Command lines -/

/-- What carrying out a request leaves behind besides files. -/
def Outcome.ofResult : Except Failure String → Outcome
  | .ok report => ⟨0, report, ""⟩
  | .error failure => ⟨failure.exitCode, "", failure.report⟩

/-- A command line on a file tree under a reading of its arguments: what it leaves behind, and the
tree after it. -/
def runOn (read : List String → Except Declined Request) (tree : FileTree)
    (arguments : List String) : Outcome × FileTree :=
  (runWith read arguments : StateM FileTree Outcome).run tree

variable {read : List String → Except Declined Request} {arguments : List String}

theorem runOn_of_error {declined : Declined} (h : read arguments = .error declined) :
    runOn read tree arguments = (declined.outcome, tree) := by
  rw [runOn, runWith, h]
  rfl

example : runOn Request.ofArguments tree ["build", "-o", "x.hack", "-hx", "a", "b"] =
    (⟨0, usage, ""⟩, tree) := rfl

theorem runOn_of_ok {request : Request} (h : read arguments = .ok request) :
    runOn read tree arguments =
      (.ofResult ((request.run : Task String).run.run tree).1,
        ((request.run : Task String).run.run tree).2) := by
  rw [runOn, runWith, h]
  dsimp only
  rw [StateT.run_bind]
  generalize StateT.run _ tree = result
  obtain ⟨outcome, after⟩ := result
  cases outcome
  all_goals rfl

end CommandLine

end HackToolchain
