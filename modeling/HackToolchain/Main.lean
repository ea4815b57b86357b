import HackToolchain.CommandLine.Run

/-! The command line program: requests on the file system that it runs in. -/

namespace HackToolchain

def fileError (e : IO.Error) : FileError :=
  match e with
  | .noFileOrDirectory .. => .notFound
  | .inappropriateType _ code _ =>
    if code == 21 then .isDirectory else .notDirectory
  | e => .other (toString e)

def attempt {α : Type} (action : IO α) : IO (Except FileError α) := do
  match ← action.toBaseIO with
  | .ok value => return .ok value
  | .error e => return .error (fileError e)

instance : Files IO where
  isDirectory path := do ((← IO.currentDir) / path).isDir
  entries path := attempt do
    return (← ((← IO.currentDir) / path).readDir).toList.map (·.fileName)
  readText path := do
    match ← attempt (IO.FS.readBinFile path) with
    | .ok bytes => return (String.fromUTF8? bytes).elim (.error .notText) .ok
    | .error e => return .error e
  writeText path contents := attempt (IO.FS.writeFile path contents)

end HackToolchain

def main (arguments : List String) : IO UInt32 := do
  let outcome ← (HackToolchain.CommandLine.run arguments : IO HackToolchain.CommandLine.Outcome)
  IO.print outcome.stdout
  IO.eprint outcome.stderr
  return outcome.exitCode.toUInt32
