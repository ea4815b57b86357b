/-! What the command line asks of a file system. -/

namespace HackToolchain

inductive FileError where
  | notFound
  | notDirectory
  | isDirectory
  | notText
  | other (message : String)
deriving DecidableEq

def FileError.message : FileError → String
  | notFound => "No such file or directory (os error 2)"
  | notDirectory => "Not a directory (os error 20)"
  | isDirectory => "Is a directory (os error 21)"
  | notText => "stream did not contain valid UTF-8"
  | other message => message

/-- Programs in `m` can use files. -/
class Files (m : Type → Type) where
  /-- Whether the path leads to a directory. -/
  isDirectory (path : String) : m Bool
  /-- The names in a directory, in no particular order. -/
  entries (path : String) : m (Except FileError (List String))
  readText (path : String) : m (Except FileError String)
  /-- Replaces the contents of a file or makes a new one. -/
  writeText (path contents : String) : m (Except FileError Unit)

end HackToolchain
