import HackToolchain.Assembly.Assemble
import HackToolchain.Command.Source
import HackToolchain.CommandLine.Request
import HackToolchain.Files.Basic
import HackToolchain.Files.Path

/-! Carrying out requests on any file system. Nothing is written before the text to be written is
complete. -/

namespace HackToolchain.CommandLine

inductive Failure where
  | notSource (path : String)
  | noSources (path : String)
  | read (path : String) (e : FileError)
  | parse (path : String) (e : SourceError)
  | lowering (input : String) (defect : Defect)
  | assembly (path : String) (e : SourceError)
  | write (path : String) (e : FileError)

namespace Failure

def summary : Failure → String
  | notSource path => s!"{path}: expected a .vm file or a directory"
  | noSources path => s!"{path}: no .vm files found"
  | read path _ => s!"Failed to read {path}"
  | parse path _ => s!"Failed to parse {path}"
  | lowering input _ => s!"Translation of {input} failed"
  | assembly path _ => s!"Assembly of {path} failed"
  | write path _ => s!"Failed to write output to {path}"

def cause? : Failure → Option String
  | notSource _ | noSources _ => none
  | read _ e | write _ e => some e.message
  | parse _ e | assembly _ e => some e.message
  | lowering _ defect => some defect.message

/-- A session without numbers ends the program at once, without a report on the input. -/
def report : Failure → String
  | lowering _ .numbersSpent => s!"{Defect.numbersSpent.message}\n"
  | failure => match failure.cause? with
    | none => s!"Error: {failure.summary}\n"
    | some cause => s!"Error: {failure.summary}\n\nCaused by:\n    {cause}\n"

def exitCode : Failure → Nat
  | lowering _ .numbersSpent => 101
  | _ => 1

theorem exitCode_pos (failure : Failure) : 0 < failure.exitCode := by
  unfold exitCode
  split <;> decide

end Failure

section

variable {m : Type → Type} [Monad m] [Files m]

def readFile (path : String) : ExceptT Failure m String :=
  ExceptT.mk (Except.mapError (.read path) <$> Files.readText path)

def writeFile (path contents : String) : ExceptT Failure m Unit :=
  ExceptT.mk (Except.mapError (.write path) <$> Files.writeText path contents)

/-- The output that belongs to an input: beside a file, and inside a directory under its name. -/
def defaultOutput (input extension : String) : ExceptT Failure m String := do
  if ← Files.isDirectory (m := m) input then
    let name := ((Path.fileName? input).map String.ofList).getD "out"
    return Path.join input (name ++ "." ++ extension)
  else return Path.withExtension input extension

/-- The source files of an input: the file itself, or those of a directory in the order of their
names. -/
def sourceFiles (input : String) : ExceptT Failure m (List String) := do
  if ← Files.isDirectory (m := m) input then
    let names ← ExceptT.mk (Except.mapError (.read input) <$> Files.entries input)
    let sources := names.filter Path.isSource
    if sources.isEmpty then throw (.noSources input)
    return (sources.mergeSort fun a b => decide (a ≤ b)).map (Path.join input)
  else
    unless Path.isSource input do throw (.notSource input)
    return [input]

/-- The commands of a source file, whose static variables belong to its stem. -/
def readCommands (path : String) : ExceptT Failure m (List Command) := do
  let source ← readFile path
  ExceptT.mk (pure ((Command.parse source ((Path.stem? path).getD "")).mapError (.parse path)))

/-- The assembly text of an input. -/
def assemblyOf (input : String) (options : Options) : ExceptT Failure m String := do
  let commands ← (← sourceFiles input).mapM readCommands
  let program ← ExceptT.mk
    (pure ((Program.ofCommands commands.flatten options).mapError (.lowering input)))
  return program.text

/-- The machine code of an assembly text, which `path` names in reports. -/
def assembleText (path source : String) : ExceptT Failure m Image :=
  ExceptT.mk (pure ((HackToolchain.assemble source).mapError (.assembly path)))

/-- Carries out a request. The result is the report of its success. -/
def Request.run (request : Request) : ExceptT Failure m String := do
  let input := request.input
  match request.action with
  | .translate =>
    let output ← request.output?.elim (defaultOutput input "asm") pure
    writeFile output (← assemblyOf input request.options)
    return s!"Translated {input} -> {output}\n"
  | .assemble =>
    let output ← request.output?.elim (defaultOutput input "hack") pure
    let image ← assembleText input (← readFile input)
    writeFile output image.text
    return s!"Assembled {input} -> {output} ({image.size} words)\n"
  | .build =>
    let middle ← defaultOutput input "asm"
    let output ← request.output?.elim (defaultOutput input "hack") pure
    let assembly ← assemblyOf input request.options
    writeFile middle assembly
    let image ← assembleText middle assembly
    writeFile output image.text
    return s!"Built {input} -> {middle} -> {output} ({image.size} words)\n"

/-- What a command line leaves behind besides files. -/
structure Outcome where
  exitCode : Nat
  stdout : String
  stderr : String

def usage : String :=
  "Usage: translate|build INPUT [-o OUTPUT] [--bootstrap] [--no-terminate]\n" ++
    "       assemble INPUT [-o OUTPUT]\n"

/-- The usage is an answer if it is asked for, and else a report. -/
def Declined.outcome : Declined → Outcome
  | help => ⟨0, usage, ""⟩
  | improper => ⟨2, "", usage⟩

/-- Carries out a command line under a reading of its arguments. -/
def runWith (read : List String → Except Declined Request) (arguments : List String) :
    m Outcome := do
  match read arguments with
  | .error declined => return declined.outcome
  | .ok request =>
    match ← request.run.run with
    | .ok report => return ⟨0, report, ""⟩
    | .error failure => return ⟨failure.exitCode, "", failure.report⟩

/-- Carries out a command line. -/
def run (arguments : List String) : m Outcome := runWith Request.ofArguments arguments

end

end HackToolchain.CommandLine
